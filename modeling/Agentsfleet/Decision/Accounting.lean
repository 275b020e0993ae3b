import Agentsfleet.Decision.Call
import Agentsfleet.Library.Run
import Agentsfleet.Library.SortedMap
import Agentsfleet.Library.Table
import Mathlib.Algebra.BigOperators.Group.List.Basic

/-!
# Accounting decision calls

Reservation, issuance, receipts and the sweep of calls never issued, over one
table of calls, the tasks' credit and the usage log.  Each transaction holds the
call's parents and the call, so transactions take effect one at a time; what a
transaction reads of the live lease, context and budget is data of its event.
-/

set_option autoImplicit false

namespace Agentsfleet.Decision

open Agentsfleet.Core
open Agentsfleet.Library
open Agentsfleet.Billing

def callNanos : Int := 20000000

def logicalSpan : Int := 30000000

/-- The credit columns of a row of `fleet.tasks`. -/
structure TaskCredit where
  fleet : String
  workspace : String
  usedModelNanos : Int
  reservedModelNanos : Int
  usedDecisionCalls : Nat
  resourceVersion : Nat
deriving DecidableEq

inductive Cause where
  | notSent
  | expired
  | priced
deriving DecidableEq

structure System where
  calls : List Call
  tasks : SortedMap String TaskCredit
  log : List Line
  accountings : List (String × Cause)

def System.start : System := ⟨[], SortedMap.empty, [], []⟩

/-! ## Reservation -/

structure Owner where
  runner : String
  lease : String
  fence : Int
deriving DecidableEq

def Call.ownedBy (call : Call) (owner : Owner) : Bool :=
  call.runner = owner.runner && call.lease = owner.lease && call.fence = owner.fence

inductive Purpose where
  | intent
  | goal
deriving DecidableEq

structure Prepared where
  fleet : String
  workspace : String
  tenant : String
  fleetName : String
  purpose : Purpose
  task : Option String
  key : String
  provider : String
  model : String
  quote : FrozenQuote
  checkedAt : Int
  /-- Whether the parent's private request is still there. -/
  payload : Bool
deriving DecidableEq

structure Reservation where
  owner : Owner
  fencingToken : Int
  operation : String
  source : String
  digest : String
  retryOf : Option String
  id : String
  assessmentId : String
  /-- `none` where the lease, the profile or the context refused it. -/
  prepared : Option Prepared
  /-- What the cumulative budget answered. -/
  admitted : Bool
deriving DecidableEq

def Prepared.goal (prepared : Prepared) : Option String :=
  match prepared.purpose with
  | .goal => prepared.task
  | .intent => none

inductive Attempt where
  | original
  | retry (parent : Call)

def Attempt.number : Attempt → Nat
  | .original => 0
  | .retry _ => 1

def Attempt.parent : Attempt → Option Call
  | .original => none
  | .retry parent => some parent

/-- How long a throttled parent asked to wait, in milliseconds. -/
def retryDelay : Option UnavailableCause → Except Refusal Nat
  | some (.providerStatus status delay) =>
      if status = 429 ∨ status = 529 then
        match delay with
        | .unspecified => .ok 0
        | .withinBudget wait => .ok wait
        | .tooLong => .error .decisionUnavailable
      else .error .decisionUnavailable
  | _ => .error .decisionUnavailable

def Attempt.resolve (calls : List Call) (reservation : Reservation) (prepared : Prepared) :
    Except Refusal Attempt :=
  match reservation.retryOf with
  | none => .ok .original
  | some parent =>
      match calls.find? fun call => call.id = parent with
      | none => .error .notFound
      | some parent =>
          if parent.attempt ≠ 0 ∨ parent.issued = false ∨ parent.assessmentKey ≠ prepared.key ∨
              parent.requestDigest ≠ reservation.digest ∨ parent.fleet ≠ prepared.fleet ∨
              parent.workspace ≠ prepared.workspace ∨
              parent.logicalExpiresAt ≤ prepared.checkedAt ∨ parent.status ≠ .unknown then
            .error .replayConflict
          else
            match retryDelay parent.failureReason with
            | .error refused => .error refused
            | .ok delay =>
                match parent.failureRecordedAt with
                | none => .error .decisionUnavailable
                | some failed =>
                    if milliseconds (prepared.checkedAt - failed) < delay then
                      .error .decisionUnavailable
                    else if prepared.payload then .ok (.retry parent)
                    else .error .decisionUnavailable

/-- `sequence.sql`: the number after the lease's last, or the first of the range. -/
def nextSequence (lease : String) (calls : List Call) : Nat :=
  match ((calls.filter fun call => call.lease = lease).map Call.sequence).max? with
  | none => decisionSeqBase
  | some last => last + 1

def Reservation.call (reservation : Reservation) (prepared : Prepared) (attempt : Attempt)
    (sequence : Nat) : Call where
  id := reservation.id
  runner := reservation.owner.runner
  lease := reservation.owner.lease
  source := reservation.source
  fleet := prepared.fleet
  workspace := prepared.workspace
  tenant := prepared.tenant
  fleetName := prepared.fleetName
  task := prepared.goal
  fence := reservation.owner.fence
  operation := reservation.operation
  requestDigest := reservation.digest
  assessmentId := (attempt.parent.map Call.assessmentId).getD reservation.assessmentId
  assessmentKey := prepared.key
  attempt := attempt.number
  retryOf := attempt.parent.map Call.id
  logicalExpiresAt :=
    (attempt.parent.map Call.logicalExpiresAt).getD (stored (prepared.checkedAt + logicalSpan))
  status := .reserved
  provider := prepared.provider
  model := prepared.model
  quote := (attempt.parent.map Call.quote).getD prepared.quote
  sequence := sequence
  reservedNanos := callNanos
  issuedAt := none
  accountedAt := none
  knownUsage := none
  chargedNanos := none
  canonicalDigest := none
  failureDigest := none
  failureReason := none
  failureRecordedAt := none
  reportedModel := none

def conflicts (calls : List Call) (call : Call) : Bool :=
  calls.any fun held =>
    held.id = call.id || (held.lease = call.lease && held.operation = call.operation) ||
      (held.assessmentKey = call.assessmentKey && held.attempt = call.attempt) ||
        (held.retryOf.isSome && held.retryOf = call.retryOf) ||
          (held.lease = call.lease && held.sequence = call.sequence)

def ownerRow (tasks : SortedMap String TaskCredit) (call : Call) :
    Option (String × TaskCredit) :=
  match call.task with
  | none => none
  | some task =>
      match tasks.get task with
      | none => none
      | some row =>
          if row.fleet = call.fleet ∧ row.workspace = call.workspace then some (task, row) else none

def creditOwner (tasks : SortedMap String TaskCredit) (call : Call)
    (change : TaskCredit → TaskCredit) : SortedMap String TaskCredit :=
  match ownerRow tasks call with
  | none => tasks
  | some (task, row) => tasks.insert task (change row)

def TaskCredit.reserve (row : TaskCredit) : TaskCredit :=
  { row with
    reservedModelNanos := row.reservedModelNanos + callNanos
    usedDecisionCalls := row.usedDecisionCalls + 1
    resourceVersion := row.resourceVersion + 1 }

def reserveTask (tasks : SortedMap String TaskCredit) (call : Call) :
    SortedMap String TaskCredit := creditOwner tasks call TaskCredit.reserve

def Prepared.taskHeld (prepared : Prepared) (tasks : SortedMap String TaskCredit) : Bool :=
  match prepared.goal with
  | none => true
  | some task =>
      match tasks.get task with
      | none => false
      | some row => row.fleet = prepared.fleet && row.workspace = prepared.workspace

/-- `Intent::save`. -/
def System.save (s : System) (reservation : Reservation) (prepared : Prepared)
    (attempt : Attempt) : Except Refusal (Call × System) :=
  let sequence := nextSequence reservation.owner.lease s.calls
  let call := reservation.call prepared attempt sequence
  if exceeds u32Max sequence then .error .sequenceCorrupt
  else if conflicts s.calls call then .error .conflict
  else .ok (call, { s with calls := s.calls ++ [call], tasks := reserveTask s.tasks call })

inductive Allocation where
  | reserved (call : Call)
  | existing (call : Call)

def Call.allocation (call : Call) : Allocation :=
  if call.status = .reserved ∧ call.issued = false ∧ call.accounted = false then .reserved call
  else .existing call

def Reservation.matches (reservation : Reservation) (call : Call) (operation : Bool) : Bool :=
  call.requestDigest = reservation.digest && call.retryOf = reservation.retryOf &&
    (!operation || call.source = reservation.source)

/-- `allocate`: a saved call answers for itself, and nothing is written. -/
def System.allocate (s : System) (reservation : Reservation) :
    Except Refusal (Allocation × System) :=
  if reservation.fencingToken ≠ reservation.owner.fence then .error .staleFence
  else
    match s.calls.find? fun call =>
        call.lease = reservation.owner.lease && call.operation = reservation.operation with
    | some call =>
        if call.ownedBy reservation.owner = false then .error .staleFence
        else if reservation.matches call true then .ok (call.allocation, s)
        else .error .replayConflict
    | none =>
        match reservation.prepared with
        | none => .error .staleState
        | some prepared =>
            if prepared.taskHeld s.tasks = false then .error .staleState
            else
              match Attempt.resolve s.calls reservation prepared with
              | .error refused => .error refused
              | .ok attempt =>
                  match s.calls.find? fun call =>
                      call.assessmentKey = prepared.key && call.attempt = attempt.number with
                  | some call =>
                      if reservation.matches call false then
                        .ok (if call.ownedBy reservation.owner then call.allocation
                          else .existing call, s)
                      else .error .replayConflict
                  | none =>
                      if reservation.admitted = false then .error .limitExhausted
                      else
                        match s.save reservation prepared attempt with
                        | .error refused => .error refused
                        | .ok (call, next) => .ok (.reserved call, next)

/-! ## Issuance -/

def Call.issue (now : Int) (call : Call) : Call :=
  { call with status := .issued, issuedAt := some (stored now) }

/-- `issue_on`, for a call the live authority still covers. -/
def System.issue (s : System) (id : String) (now : Int) (authorized : Bool) : System :=
  match s.calls.find? fun call => call.id = id with
  | none => s
  | some call =>
      if call.status = .reserved ∧ call.issued = false ∧ call.accounted = false ∧
          authorized = true ∧ now < call.logicalExpiresAt then
        { s with
          calls :=
            Table.update (fun other => decide (other.id = call.id)) (Call.issue now) s.calls }
      else s

/-! ## Receipts -/

section Receipts

variable (digest : Receipt → String)

def TaskCredit.account (reserved charged : Int) (row : TaskCredit) : TaskCredit :=
  { row with
    reservedModelNanos := row.reservedModelNanos - reserved
    usedModelNanos := min (row.usedModelNanos + charged) (2 ^ 63 - 1)
    resourceVersion := row.resourceVersion + 1 }

/-- `account_task.sql`, on a task that is still there. -/
def accountTask (tasks : SortedMap String TaskCredit) (call : Call) (charged : Int) :
    SortedMap String TaskCredit :=
  creditOwner tasks call (TaskCredit.account call.reservedNanos charged)

/-- `Recording::write`: the call, its line and its task move together. -/
def System.write (s : System) (call : Call) (receipt : Receipt) (plan : Plan) (how : Cause)
    (now : Int) (stamp : Nat) : Except Refusal System :=
  match Accounting.of plan with
  | none => .ok s
  | some accounting =>
      let calls := Table.update (fun other => decide (other.id = call.id))
        (Call.recorded now receipt (digest receipt) accounting) s.calls
      match (match accounting.settlement with
        | none => Except.ok (0, s.log)
        | some settlement => logLines stamp settlement s.log) with
      | .error cause => .error (.ledger cause)
      | .ok (_, log) =>
          match accounting.charged with
          | none => .ok { s with calls := calls, log := log }
          | some charged =>
              .ok
                { calls := calls
                  tasks := accountTask s.tasks call charged
                  log := log
                  accountings := (call.id, how) :: s.accountings }

def Plan.cause : Plan → Cause
  | .notSent => .notSent
  | _ => .priced

/-- `record`: a receipt of the call's original owner. -/
def System.record (s : System) (owner : Owner) (fencingToken : Int) (id : String)
    (receipt : Receipt) (now : Int) (stamp : Nat) : Except Refusal System :=
  if fencingToken ≠ owner.fence then .error .staleFence
  else
    match s.calls.find? fun call => call.id = id with
    | none => .error .notFound
    | some call =>
        if call.ownedBy owner = false then .error .staleFence
        else
          match classify call receipt (digest receipt) with
          | .error refused => .error refused
          | .ok plan => s.write digest call receipt plan plan.cause now stamp

/-- `expire_on`: a discovery that is out of date refunds nothing. -/
def System.expire (s : System) (id : String) (now : Int) : Except Refusal System :=
  match s.calls.find? fun call => call.id = id with
  | none => .ok s
  | some call =>
      if call.issued = true ∨ call.accounted = true ∨
          max 0 ((call.logicalExpiresAt - now) / 1000) ≠ 0 then .ok s
      else s.write digest call (.notSent .preflight) .notSent .expired now 0

inductive Event where
  | reserve (reservation : Reservation)
  | issue (id : String) (now : Int) (authorized : Bool)
  | record (owner : Owner) (fencingToken : Int) (id : String) (receipt : Receipt) (now : Int)
      (stamp : Nat)
  | expire (id : String) (now : Int)
  /-- A task is adopted under an id no row has named. -/
  | adopt (task fleet workspace : String)
  | erase (task : String)
  /-- A task's other counters move; its reservation does not. -/
  | spend (task : String) (usedModelNanos : Int)
  /-- The lines of requests and run time, numbered below the decisions'. -/
  | log (stamp : Nat) (settlement : Settlement)

def System.commit (s : System) (answer : Except Refusal System) : System :=
  match answer with
  | .error _ => s
  | .ok next => next

def System.step (s : System) : Event → System
  | .reserve reservation =>
      match s.allocate reservation with
      | .error _ => s
      | .ok (_, next) => next
  | .issue id now authorized => s.issue id now authorized
  | .record owner fencingToken id receipt now stamp =>
      s.commit (s.record digest owner fencingToken id receipt now stamp)
  | .expire id now => s.commit (s.expire digest id now)
  | .adopt task fleet workspace =>
      if (s.tasks.get task).isSome ∨ (s.calls.any fun call => call.task = some task) = true then s
      else { s with tasks := s.tasks.insert task ⟨fleet, workspace, 0, 0, 0, 1⟩ }
  | .erase task => { s with tasks := s.tasks.remove task }
  | .spend task usedModelNanos =>
      match s.tasks.get task with
      | none => s
      | some row =>
          { s with
            tasks := s.tasks.insert task
              { row with
                usedModelNanos := usedModelNanos
                resourceVersion := row.resourceVersion + 1 } }
  | .log stamp settlement =>
      if (settlement.lines.any fun rated => decisionSeqBase ≤ rated.usage.seq) = true then s
      else
        match logLines stamp settlement s.log with
        | .error _ => s
        | .ok (_, log) => { s with log := log }

end Receipts

/-! ## What every transaction keeps -/

def owed (task : String) (call : Call) : Int :=
  if call.task = some task ∧ call.accountedAt = none then call.reservedNanos else 0

def Call.lineKey (call : Call) : LineKey := (.fleetLease call.lease, call.sequence)

def Call.accountedAs (call : Call) : Cause → Prop
  | .notSent => call.issued = true ∧ call.status = .notSent ∧ call.chargedNanos = some 0
  | .expired => call.issued = false ∧ call.status = .notSent ∧ call.chargedNanos = some 0
  | .priced => call.issued = true ∧ call.status = .known ∧ call.knownUsage.isSome = true ∧
      call.chargedNanos.isSome = true

structure Sound (s : System) : Prop where
  ids : (s.calls.map Call.id).Nodup
  sequences : (s.calls.map fun call => (call.lease, call.sequence)).Nodup
  retries : (s.calls.filterMap Call.retryOf).Nodup
  range : ∀ call ∈ s.calls, decisionSeqBase ≤ call.sequence
  owners : ∀ call ∈ s.calls, ∀ task row, call.task = some task → s.tasks.get task = some row →
    row.fleet = call.fleet ∧ row.workspace = call.workspace
  reserved : ∀ task row, s.tasks.get task = some row →
    row.reservedModelNanos = (s.calls.map (owed task)).sum
  unique : (s.log.map Line.key).Nodup
  lines : ∀ line ∈ s.log, decisionSeqBase ≤ line.rated.usage.seq →
    ∃ call ∈ s.calls, line.key = call.lineKey ∧ call.status = .known
  known : ∀ call ∈ s.calls, call.status = .known →
    ∃ line ∈ s.log, line.key = call.lineKey ∧ call.chargedNanos = some line.rated.charged
  once : (s.accountings.map Prod.fst).Nodup
  exact : ∀ call ∈ s.calls, call.accounted = true ↔ call.id ∈ s.accountings.map Prod.fst
  named : ∀ entry ∈ s.accountings, ∃ call ∈ s.calls, call.id = entry.1 ∧ call.accountedAs entry.2
  settled : ∀ call ∈ s.calls, call.status = .known → call.accounted = true
  uncharged : ∀ call ∈ s.calls, call.accountedAt = none → call.chargedNanos = none

theorem sound_start : Sound System.start := by
  refine ⟨List.nodup_nil, List.nodup_nil, List.nodup_nil, ?_, ?_, ?_, List.nodup_nil, ?_, ?_,
    List.nodup_nil, ?_, ?_, ?_, ?_⟩ <;> simp [System.start, SortedMap.get_empty]

theorem find_id {calls : List Call} {id : String} {call : Call}
    (found : calls.find? (fun call => call.id = id) = some call) : call ∈ calls ∧ call.id = id := by
  have same := List.find?_some found
  exact ⟨List.mem_of_find?_eq_some found, by simpa using same⟩

/-! ### A call reserved -/

theorem nextSequence_gt {lease : String} {calls : List Call} {call : Call} (held : call ∈ calls)
    (same : call.lease = lease) : call.sequence < nextSequence lease calls := by
  have listed : call.sequence ∈ (calls.filter fun call => call.lease = lease).map Call.sequence :=
    List.mem_map_of_mem (List.mem_filter.mpr ⟨held, by simpa using same⟩)
  unfold nextSequence
  cases last : ((calls.filter fun call => call.lease = lease).map Call.sequence).max? with
  | none =>
      rw [List.max?_eq_none_iff] at last
      rw [last] at listed
      simp at listed
  | some last_seq =>
      have bound := (List.max?_eq_some_iff.mp last).2 _ listed
      simp only
      omega

theorem nextSequence_range {lease : String} {calls : List Call}
    (range : ∀ call ∈ calls, decisionSeqBase ≤ call.sequence) :
    decisionSeqBase ≤ nextSequence lease calls := by
  unfold nextSequence
  cases last : ((calls.filter fun call => call.lease = lease).map Call.sequence).max? with
  | none => exact Nat.le_refl _
  | some last_seq =>
      obtain ⟨call, member, same⟩ := List.mem_map.mp (List.max?_eq_some_iff.mp last).1
      have low := range call (List.mem_filter.mp member).1
      simp only
      omega

theorem ownerRow_some {tasks : SortedMap String TaskCredit} {call : Call} {task : String}
    {row : TaskCredit} (owner : ownerRow tasks call = some (task, row)) :
    call.task = some task ∧ tasks.get task = some row ∧ row.fleet = call.fleet ∧
      row.workspace = call.workspace := by
  unfold ownerRow at owner
  cases goal : call.task with
  | none => simp [goal] at owner
  | some held =>
      cases found : tasks.get held with
      | none => simp [goal, found] at owner
      | some credit =>
          simp only [goal, found] at owner
          split at owner
          · rename_i scope
            cases owner
            exact ⟨rfl, found, scope⟩
          · exact nomatch owner

theorem ownerRow_none {tasks : SortedMap String TaskCredit} {call : Call} {task : String}
    {row : TaskCredit} (owner : ownerRow tasks call = none) (goal : call.task = some task)
    (found : tasks.get task = some row) :
    ¬(row.fleet = call.fleet ∧ row.workspace = call.workspace) := by
  intro scope
  simp [ownerRow, goal, found, scope] at owner

structure Fresh (s : System) (call : Call) : Prop where
  id : ∀ other ∈ s.calls, other.id ≠ call.id
  retry : ∀ other ∈ s.calls, ∀ parent, other.retryOf = some parent → call.retryOf ≠ some parent
  sequence : call.sequence = nextSequence call.lease s.calls
  unaccounted : call.accountedAt = none
  uncharged : call.chargedNanos = none
  status : call.status = .reserved
  nanos : call.reservedNanos = callNanos
  scope : ∀ task row, call.task = some task → s.tasks.get task = some row →
    row.fleet = call.fleet ∧ row.workspace = call.workspace

theorem save_fresh {s next : System} {reservation : Reservation} {prepared : Prepared}
    {attempt : Attempt} {call : Call} (held : prepared.taskHeld s.tasks = true)
    (saved : s.save reservation prepared attempt = .ok (call, next)) :
    Fresh s call ∧
      next = { s with calls := s.calls ++ [call], tasks := reserveTask s.tasks call } := by
  unfold System.save at saved
  simp only at saved
  split at saved
  · exact nomatch saved
  · split at saved
    · exact nomatch saved
    · rename_i apart
      simp only [Except.ok.injEq, Prod.mk.injEq] at saved
      obtain ⟨rfl, rfl⟩ := saved
      refine ⟨⟨?_, ?_, rfl, rfl, rfl, rfl, rfl, ?_⟩, rfl⟩
      · intro other member same
        apply apart
        unfold conflicts
        rw [List.any_eq_true]
        exact ⟨other, member, by simp [same]⟩
      · intro other member parent first second
        apply apart
        unfold conflicts
        rw [List.any_eq_true]
        exact ⟨other, member, by simp [first, second]⟩
      · intro task row owns found
        change prepared.goal = some task at owns
        unfold Prepared.taskHeld at held
        rw [owns] at held
        change row.fleet = prepared.fleet ∧ row.workspace = prepared.workspace
        simpa [found] using held

theorem get_creditOwner {tasks : SortedMap String TaskCredit} {call : Call}
    (scope : ∀ task row, call.task = some task → tasks.get task = some row →
      row.fleet = call.fleet ∧ row.workspace = call.workspace)
    (change : TaskCredit → TaskCredit) (task : String) :
    (creditOwner tasks call change).get task =
      (tasks.get task).map fun row => if call.task = some task then change row else row := by
  unfold creditOwner
  cases owner : ownerRow tasks call with
  | none =>
      simp only
      cases found : tasks.get task with
      | none => rfl
      | some row =>
          have other : call.task ≠ some task := by
            intro goal
            exact ownerRow_none owner goal found (scope task row goal found)
          simp [other]
  | some answer =>
      obtain ⟨held, row⟩ := answer
      obtain ⟨goal, found, _⟩ := ownerRow_some owner
      simp only [SortedMap.get_insert]
      by_cases same : task = held
      · subst same
        simp [found, goal]
      · rw [if_neg same]
        have other : call.task ≠ some task := by
          rw [goal]
          exact fun equal => same (Option.some.inj equal).symm
        cases tasks.get task with
        | none => rfl
        | some row => simp [other]

theorem sound_saved {s : System} {call : Call} (sound : Sound s) (fresh : Fresh s call) :
    Sound { s with calls := s.calls ++ [call], tasks := reserveTask s.tasks call } := by
  have unaccounted : call.accounted = false := by simp [Call.accounted, fresh.unaccounted]
  have unnamed : call.id ∉ s.accountings.map Prod.fst := by
    intro member
    obtain ⟨entry, held, same⟩ := List.mem_map.mp member
    obtain ⟨other, inside, id, _⟩ := sound.named entry held
    exact fresh.id other inside (id.trans same)
  refine ⟨?_, ?_, ?_, ?_, ?_, ?_, sound.unique, ?_, ?_, sound.once, ?_, ?_, ?_, ?_⟩
  · rw [List.map_append]
    apply List.Nodup.append sound.ids (List.nodup_singleton _)
    intro id first second
    obtain ⟨other, member, rfl⟩ := List.mem_map.mp first
    exact fresh.id other member (by simpa using second)
  · rw [List.map_append]
    apply List.Nodup.append sound.sequences (List.nodup_singleton _)
    intro key first second
    obtain ⟨other, member, rfl⟩ := List.mem_map.mp first
    simp only [List.mem_singleton, Prod.mk.injEq] at second
    have below := nextSequence_gt member second.1
    rw [← fresh.sequence] at below
    omega
  · rw [List.filterMap_append]
    apply List.Nodup.append sound.retries
    · cases retry : call.retryOf with
      | none => simp [retry]
      | some parent => simp [retry]
    · intro parent first second
      obtain ⟨other, member, retry⟩ := List.mem_filterMap.mp first
      simp only [List.mem_filterMap, List.mem_singleton, exists_eq_left] at second
      exact fresh.retry other member parent retry second
  · intro other member
    rcases List.mem_append.mp member with old | new
    · exact sound.range other old
    · rw [List.mem_singleton] at new
      rw [new, fresh.sequence]
      exact nextSequence_range sound.range
  · intro other member task row goal found
    simp only [reserveTask, get_creditOwner fresh.scope] at found
    obtain ⟨before, held, rfl⟩ := Option.map_eq_some_iff.mp found
    have scope : before.fleet = other.fleet ∧ before.workspace = other.workspace := by
      rcases List.mem_append.mp member with old | new
      · exact sound.owners other old task before goal held
      · rw [List.mem_singleton] at new
        subst new
        exact fresh.scope task before goal held
    split
    · exact scope
    · exact scope
  · intro task row found
    simp only [reserveTask, get_creditOwner fresh.scope] at found
    obtain ⟨before, held, rfl⟩ := Option.map_eq_some_iff.mp found
    have total := sound.reserved task before held
    rw [List.map_append, List.sum_append, ← total]
    by_cases goal : call.task = some task
    · simp [owed, goal, fresh.unaccounted, fresh.nanos, TaskCredit.reserve]
    · simp [owed, goal]
  · intro line member ranged
    obtain ⟨other, held, same⟩ := sound.lines line member ranged
    exact ⟨other, List.mem_append_left _ held, same⟩
  · intro other member status
    rcases List.mem_append.mp member with old | new
    · exact sound.known other old status
    · rw [List.mem_singleton] at new
      rw [new, fresh.status] at status
      exact absurd status (by decide)
  · intro other member
    rcases List.mem_append.mp member with old | new
    · exact sound.exact other old
    · rw [List.mem_singleton] at new
      subst new
      simp [unaccounted, unnamed]
  · intro entry member
    obtain ⟨other, held, same⟩ := sound.named entry member
    exact ⟨other, List.mem_append_left _ held, same⟩
  · intro other member status
    rcases List.mem_append.mp member with old | new
    · exact sound.settled other old status
    · rw [List.mem_singleton] at new
      rw [new, fresh.status] at status
      exact absurd status (by decide)
  · intro other member free
    rcases List.mem_append.mp member with old | new
    · exact sound.uncharged other old free
    · rw [List.mem_singleton] at new
      rw [new]
      exact fresh.uncharged

/-! ### A call changed -/

structure Steady (change : Call → Call) : Prop where
  id : ∀ call, (change call).id = call.id
  lease : ∀ call, (change call).lease = call.lease
  sequence : ∀ call, (change call).sequence = call.sequence
  retryOf : ∀ call, (change call).retryOf = call.retryOf
  fleet : ∀ call, (change call).fleet = call.fleet
  workspace : ∀ call, (change call).workspace = call.workspace
  task : ∀ call, (change call).task = call.task
  reservedNanos : ∀ call, (change call).reservedNanos = call.reservedNanos

theorem steady_issue (now : Int) : Steady (Call.issue now) := by
  constructor <;> intro call <;> rfl

theorem steady_recorded (now : Int) (receipt : Receipt) (digest : String)
    (accounting : Accounting) : Steady (Call.recorded now receipt digest accounting) := by
  constructor <;> intro call <;> rfl

section Changed

variable {s : System} {call : Call} {change : Call → Call}

def changed (call : Call) (change : Call → Call) (calls : List Call) : List Call :=
  Table.update (fun other => decide (other.id = call.id)) change calls

theorem mem_changed {calls : List Call} {row : Call} (unique : (calls.map Call.id).Nodup)
    (held : call ∈ calls) (member : row ∈ changed call change calls) :
    row = change call ∨ row ∈ calls ∧ row.id ≠ call.id := by
  obtain ⟨old, inside, rfl⟩ := Table.mem_update.mp member
  by_cases same : old.id = call.id
  · have equal : old = call := List.inj_on_of_nodup_map unique inside held same
    subst equal
    simp
  · simp [same, inside]

theorem mem_changed_self {calls : List Call} (held : call ∈ calls) :
    change call ∈ changed call change calls := by
  apply Table.mem_update.mpr
  exact ⟨call, held, by simp⟩

theorem mem_changed_other {calls : List Call} {other : Call} (inside : other ∈ calls)
    (apart : other.id ≠ call.id) : other ∈ changed call change calls := by
  apply Table.mem_update.mpr
  exact ⟨other, inside, by simp [apart]⟩

theorem lineKey_steady (steady : Steady change) (call : Call) :
    (change call).lineKey = call.lineKey := by
  simp [Call.lineKey, steady.lease, steady.sequence]

theorem call_of_lineKey (sound : Sound s) {other : Call} (held : call ∈ s.calls)
    (inside : other ∈ s.calls) (same : other.lineKey = call.lineKey) : other = call := by
  apply List.inj_on_of_nodup_map sound.sequences inside held
  simpa [Call.lineKey] using same

theorem sound_changed (sound : Sound s) (held : call ∈ s.calls) (steady : Steady change)
    (before : call.accountedAt = none) (after : (change call).accountedAt = none)
    (priced : (change call).status ≠ .known) (uncharged : (change call).chargedNanos = none) :
    Sound { s with calls := changed call change s.calls } := by
  have unknown : call.status ≠ .known := by
    intro known
    have accounted := sound.settled call held known
    simp [Call.accounted, before] at accounted
  refine ⟨?_, ?_, ?_, ?_, ?_, ?_, sound.unique, ?_, ?_, sound.once, ?_, ?_, ?_, ?_⟩
  · rw [show (changed call change s.calls).map Call.id = _ from
      Table.column_update Call.id _ change steady.id s.calls]
    exact sound.ids
  · rw [show (changed call change s.calls).map (fun call => (call.lease, call.sequence)) = _ from
      Table.column_update _ _ change (fun call => by rw [steady.lease, steady.sequence]) s.calls]
    exact sound.sequences
  · rw [show (changed call change s.calls).filterMap Call.retryOf =
      s.calls.filterMap Call.retryOf from Table.filterMap_update steady.retryOf s.calls]
    exact sound.retries
  · intro row member
    rcases mem_changed sound.ids held member with rfl | ⟨inside, _⟩
    · rw [steady.sequence]
      exact sound.range call held
    · exact sound.range row inside
  · intro row member task credit goal found
    rcases mem_changed sound.ids held member with rfl | ⟨inside, _⟩
    · rw [steady.fleet, steady.workspace]
      rw [steady.task] at goal
      exact sound.owners call held task credit goal found
    · exact sound.owners row inside task credit goal found
  · intro task credit found
    have total := Table.sum_update Call.id (owed task) change sound.ids held
    have same : owed task (change call) = owed task call := by
      simp [owed, steady.task, steady.reservedNanos, before, after]
    rw [same, Int.sub_add_cancel] at total
    exact (sound.reserved task credit found).trans total.symm
  · intro line member ranged
    obtain ⟨other, inside, key, status⟩ := sound.lines line member ranged
    refine ⟨other, mem_changed_other inside ?_, key, status⟩
    intro same
    have equal : other = call := List.inj_on_of_nodup_map sound.ids inside held same
    exact unknown (equal ▸ status)
  · intro row member status
    rcases mem_changed sound.ids held member with rfl | ⟨inside, _⟩
    · exact absurd status priced
    · exact sound.known row inside status
  · intro row member
    rcases mem_changed sound.ids held member with rfl | ⟨inside, _⟩
    · have unnamed := sound.exact call held
      simp only [Call.accounted, before, after, steady.id] at unnamed ⊢
      exact unnamed
    · exact sound.exact row inside
  · intro entry member
    obtain ⟨other, inside, id, as_accounted⟩ := sound.named entry member
    refine ⟨other, mem_changed_other inside ?_, id, as_accounted⟩
    intro same
    have equal : other = call := List.inj_on_of_nodup_map sound.ids inside held same
    have accounted := (sound.exact call held).mpr
      (List.mem_map.mpr ⟨entry, member, by rw [← equal, id]⟩)
    simp [Call.accounted, before] at accounted
  · intro row member status
    rcases mem_changed sound.ids held member with rfl | ⟨inside, _⟩
    · exact absurd status priced
    · exact sound.settled row inside status
  · intro row member free
    rcases mem_changed sound.ids held member with rfl | ⟨inside, _⟩
    · exact uncharged
    · exact sound.uncharged row inside free

structure Booked (call accounted : Call) (log after : List Line) : Prop where
  unique : (after.map Line.key).Nodup
  kept : ∀ line ∈ log, line ∈ after
  fresh : ∀ line ∈ after, line ∈ log ∨ line.key = call.lineKey ∧ accounted.status = .known
  known : accounted.status = .known →
    ∃ line ∈ after, line.key = call.lineKey ∧ accounted.chargedNanos = some line.rated.charged

theorem sound_accounted {how : Cause} {charged : Int} {log : List Line} (sound : Sound s)
    (held : call ∈ s.calls) (steady : Steady change) (before : call.accountedAt = none)
    (after : (change call).accountedAt.isSome = true) (caused : (change call).accountedAs how)
    (booked : Booked call (change call) s.log log) :
    Sound
      { calls := changed call change s.calls
        tasks := accountTask s.tasks call charged
        log := log
        accountings := (call.id, how) :: s.accountings } := by
  have unknown : call.status ≠ .known := by
    intro known
    have accounted := sound.settled call held known
    simp [Call.accounted, before] at accounted
  have unnamed : call.id ∉ s.accountings.map Prod.fst := by
    intro named
    have accounted := (sound.exact call held).mpr named
    simp [Call.accounted, before] at accounted
  have others : ∀ other ∈ s.calls, other.status = .known ∨ other.id ∈ s.accountings.map Prod.fst →
      other.id ≠ call.id := by
    intro other inside settled same
    have equal : other = call := List.inj_on_of_nodup_map sound.ids inside held same
    subst equal
    exact settled.elim unknown unnamed
  refine ⟨?_, ?_, ?_, ?_, ?_, ?_, booked.unique, ?_, ?_, ?_, ?_, ?_, ?_, ?_⟩
  · rw [show (changed call change s.calls).map Call.id = _ from
      Table.column_update Call.id _ change steady.id s.calls]
    exact sound.ids
  · rw [show (changed call change s.calls).map (fun call => (call.lease, call.sequence)) = _ from
      Table.column_update _ _ change (fun call => by rw [steady.lease, steady.sequence]) s.calls]
    exact sound.sequences
  · rw [show (changed call change s.calls).filterMap Call.retryOf =
      s.calls.filterMap Call.retryOf from Table.filterMap_update steady.retryOf s.calls]
    exact sound.retries
  · intro row member
    rcases mem_changed sound.ids held member with rfl | ⟨inside, _⟩
    · rw [steady.sequence]
      exact sound.range call held
    · exact sound.range row inside
  · intro row member task credit goal found
    simp only [accountTask, get_creditOwner (sound.owners call held)] at found
    obtain ⟨credit_before, credit_held, rfl⟩ := Option.map_eq_some_iff.mp found
    have scope : credit_before.fleet = row.fleet ∧ credit_before.workspace = row.workspace := by
      rcases mem_changed sound.ids held member with rfl | ⟨inside, _⟩
      · rw [steady.fleet, steady.workspace]
        rw [steady.task] at goal
        exact sound.owners call held task credit_before goal credit_held
      · exact sound.owners row inside task credit_before goal credit_held
    split
    · exact scope
    · exact scope
  · intro task credit found
    simp only [accountTask, get_creditOwner (sound.owners call held)] at found
    obtain ⟨credit_before, credit_held, rfl⟩ := Option.map_eq_some_iff.mp found
    have total := Table.sum_update Call.id (owed task) change sound.ids held
    have freed : owed task (change call) = 0 := by
      obtain ⟨instant, stamped⟩ := Option.isSome_iff_exists.mp after
      simp [owed, stamped]
    have reserved := sound.reserved task credit_before credit_held
    change (if call.task = some task then _ else credit_before).reservedModelNanos =
      ((changed call change s.calls).map (owed task)).sum
    rw [show ((changed call change s.calls).map (owed task)).sum = _ from total, freed, ← reserved]
    by_cases goal : call.task = some task
    · simp [owed, goal, before, TaskCredit.account]
    · simp [owed, goal]
  · intro line member ranged
    rcases booked.fresh line member with old | ⟨key, status⟩
    · obtain ⟨other, inside, key, status⟩ := sound.lines line old ranged
      exact ⟨other, mem_changed_other inside (others other inside (.inl status)), key, status⟩
    · exact ⟨change call, mem_changed_self held, by rw [key, lineKey_steady steady], status⟩
  · intro row member status
    rcases mem_changed sound.ids held member with rfl | ⟨inside, _⟩
    · obtain ⟨line, listed, key, amount⟩ := booked.known status
      exact ⟨line, listed, by rw [key, lineKey_steady steady], amount⟩
    · obtain ⟨line, listed, key⟩ := sound.known row inside status
      exact ⟨line, booked.kept line listed, key⟩
  · exact List.nodup_cons.mpr ⟨unnamed, sound.once⟩
  · intro row member
    rcases mem_changed sound.ids held member with rfl | ⟨inside, apart⟩
    · simp [Call.accounted, after, steady.id]
    · rw [List.map_cons, List.mem_cons, sound.exact row inside]
      exact ⟨.inr, fun either => either.resolve_left apart⟩
  · intro entry member
    rcases List.mem_cons.mp member with rfl | old
    · exact ⟨change call, mem_changed_self held, steady.id call, caused⟩
    · obtain ⟨other, inside, id, as_accounted⟩ := sound.named entry old
      have listed : other.id ∈ s.accountings.map Prod.fst :=
        List.mem_map.mpr ⟨entry, old, id.symm⟩
      exact ⟨other, mem_changed_other inside (others other inside (.inr listed)), id, as_accounted⟩
  · intro row member status
    rcases mem_changed sound.ids held member with rfl | ⟨inside, _⟩
    · exact after
    · exact sound.settled row inside status
  · intro row member free
    rcases mem_changed sound.ids held member with rfl | ⟨inside, _⟩
    · rw [free] at after
      exact absurd after (by decide)
    · exact sound.uncharged row inside free

theorem booked_known {rated : RatedLine} {cost : Int} {log : List Line} {stamp : Nat}
    (sound : Sound s) (held : call ∈ s.calls) (before : call.accountedAt = none)
    (numbered : rated.usage.seq = call.sequence)
    (logged : logLines stamp (call.settlement rated) s.log = .ok (cost, log))
    (known : (change call).status = .known)
    (amount : (change call).chargedNanos = some rated.charged) :
    Booked call (change call) s.log log := by
  have own : ((call.settlement rated).row stamp rated).key = call.lineKey := by
    simp [Line.key, Settlement.row, Call.settlement, Call.lineKey, numbered]
  have absent : ((call.settlement rated).row stamp rated).key ∉ s.log.map Line.key := by
    rw [own]
    intro listed
    obtain ⟨line, inside, key⟩ := List.mem_map.mp listed
    have seq : line.rated.usage.seq = call.sequence := congrArg Prod.snd key
    have ranged := sound.range call held
    obtain ⟨other, among, other_key, status⟩ := sound.lines line inside (by omega)
    have equal := call_of_lineKey sound held among (other_key.symm.trans key)
    have accounted := sound.settled other among status
    rw [equal] at accounted
    simp [Call.accounted, before] at accounted
  have spec := logLines_logged logged sound.unique
  have inserted := logLines_insert logged
  have appended : log = s.log ++ [(call.settlement rated).row stamp rated] := by
    rw [inserted]
    change (Table.insertNew Line.key ((call.settlement rated).row stamp rated) s.log).2 = _
    rw [Table.insertNew, if_neg absent]
  refine ⟨spec.unique, spec.kept, ?_, ?_⟩
  · intro line member
    rw [appended] at member
    rcases List.mem_append.mp member with old | new
    · exact .inl old
    · rw [List.mem_singleton] at new
      rw [new]
      exact .inr ⟨own, known⟩
  · intro _
    refine ⟨(call.settlement rated).row stamp rated, ?_, own, amount⟩
    rw [appended]
    exact List.mem_append_right _ (List.mem_singleton_self _)

end Changed

/-! ### Each transaction -/

section Steps

variable {digest : Receipt → String} {s next : System} {call : Call} {receipt : Receipt}
  {plan : Plan} {how : Cause} {now : Int} {stamp : Nat}

def Plan.fits (call : Call) (how : Cause) : Plan → Prop
  | .replay => True
  | .unknown _ _ => True
  | .known _ charged settlement => how = .priced ∧ call.issued = true ∧
      ∃ rated, settlement = call.settlement rated ∧ rated.charged = charged ∧
        rated.usage.seq = call.sequence
  | .notSent => how = .notSent ∧ call.issued = true ∨ how = .expired ∧ call.issued = false

theorem sound_write (sound : Sound s) (held : call ∈ s.calls)
    (before : plan ≠ .replay → call.accountedAt = none) (fits : plan.fits call how)
    (written : s.write digest call receipt plan how now stamp = .ok next) : Sound next := by
  unfold System.write at written
  cases plan with
  | replay =>
      cases written
      exact sound
  | unknown usage canonical =>
      cases written
      have free := before (by simp)
      apply sound_changed sound held (steady_recorded now receipt (digest receipt) _) free
      · simp [Call.recorded, free]
      · simp [Call.recorded]
      · simp [Call.recorded, sound.uncharged call held free]
  | known usage charged settlement =>
      have free := before (by simp)
      obtain ⟨rfl, issued, rated, rfl, rfl, numbered⟩ := fits
      simp only [Accounting.of] at written
      cases logged : logLines stamp (call.settlement rated) s.log with
      | error cause => simp [logged] at written
      | ok answer =>
          obtain ⟨cost, log⟩ := answer
          simp only [logged, Except.ok.injEq] at written
          subst written
          have uncharged := sound.uncharged call held free
          apply sound_accounted sound held (steady_recorded now receipt (digest receipt) _) free
          · simp [Call.recorded]
          · exact ⟨issued, rfl, by simp [Call.recorded], by simp [Call.recorded]⟩
          · apply booked_known sound held free numbered logged
            · simp [Call.recorded]
            · simp [Call.recorded, uncharged]
  | notSent =>
      cases written
      have free := before (by simp)
      have uncharged := sound.uncharged call held free
      apply sound_accounted sound held (steady_recorded now receipt (digest receipt) _) free
      · simp [Call.recorded]
      · rcases fits with ⟨rfl, issued⟩ | ⟨rfl, unissued⟩
        · exact ⟨issued, rfl, by simp [Call.recorded, uncharged]⟩
        · exact ⟨unissued, rfl, by simp [Call.recorded, uncharged]⟩
      · refine ⟨sound.unique, fun _ member => member, fun _ member => .inl member, ?_⟩
        intro known
        simp [Call.recorded] at known

theorem classify_fits {mark : String} (classified : classify call receipt mark = .ok plan) :
    plan.fits call plan.cause := by
  cases plan with
  | replay => trivial
  | unknown usage canonical => trivial
  | known usage charged settlement =>
      obtain ⟨_, issued⟩ := classify_open classified (by simp)
      obtain ⟨rated, same, amount, uncached, priced⟩ := classify_known classified
      exact ⟨rfl, issued, rated, same, amount, (rate_usage priced).1⟩
  | notSent => exact .inl ⟨rfl, (classify_open classified (by simp)).2⟩

theorem sound_record {owner : Owner} {fencingToken : Int} {id : String} (sound : Sound s)
    (recorded : s.record digest owner fencingToken id receipt now stamp = .ok next) :
    Sound next := by
  unfold System.record at recorded
  split at recorded
  · exact nomatch recorded
  · cases found : s.calls.find? fun call => call.id = id with
    | none => simp [found] at recorded
    | some call =>
        simp only [found] at recorded
        split at recorded
        · exact nomatch recorded
        · cases classified : classify call receipt (digest receipt) with
          | error refused => simp [classified] at recorded
          | ok plan =>
              simp only [classified] at recorded
              apply sound_write sound (find_id found).1 _ (classify_fits classified) recorded
              exact fun writes => (classify_open classified writes).1

theorem sound_expire {id : String} (sound : Sound s)
    (expired : s.expire digest id now = .ok next) : Sound next := by
  unfold System.expire at expired
  cases found : s.calls.find? fun call => call.id = id with
  | none =>
      simp only [found] at expired
      cases expired
      exact sound
  | some call =>
      simp only [found] at expired
      split at expired
      · cases expired
        exact sound
      · rename_i due
        simp only [not_or, Bool.not_eq_true] at due
        apply sound_write sound (find_id found).1 _ _ expired
        · intro _
          simpa [Call.accounted] using due.2.1
        · exact .inr ⟨rfl, due.1⟩

theorem sound_issue {id : String} {authorized : Bool} (sound : Sound s) :
    Sound (s.issue id now authorized) := by
  unfold System.issue
  cases found : s.calls.find? fun call => call.id = id with
  | none => exact sound
  | some call =>
      simp only
      split
      · rename_i open_call
        have held := (find_id found).1
        have free : call.accountedAt = none := by
          simpa [Call.accounted] using open_call.2.2.1
        apply sound_changed sound held (steady_issue now) free free
        · simp [Call.issue]
        · exact sound.uncharged call held free
      · exact sound

theorem sound_allocate {reservation : Reservation} {allocation : Allocation} (sound : Sound s)
    (allocated : s.allocate reservation = .ok (allocation, next)) : Sound next := by
  unfold System.allocate at allocated
  split at allocated
  · exact nomatch allocated
  · split at allocated
    · split at allocated
      · exact nomatch allocated
      · split at allocated
        · cases allocated
          exact sound
        · exact nomatch allocated
    · split at allocated
      · exact nomatch allocated
      · rename_i prepared _
        split at allocated
        · exact nomatch allocated
        · rename_i held
          split at allocated
          · exact nomatch allocated
          · rename_i attempt _
            split at allocated
            · split at allocated
              · cases allocated
                exact sound
              · exact nomatch allocated
            · split at allocated
              · exact nomatch allocated
              · cases saved : s.save reservation prepared attempt with
                | error refused => simp [saved] at allocated
                | ok answer =>
                    obtain ⟨call, after⟩ := answer
                    simp only [saved, Except.ok.injEq, Prod.mk.injEq] at allocated
                    obtain ⟨_, rfl⟩ := allocated
                    obtain ⟨fresh, rfl⟩ := save_fresh (by simpa using held) saved
                    exact sound_saved sound fresh

theorem sound_tasks {tasks : SortedMap String TaskCredit} (sound : Sound s)
    (kept : ∀ task row, tasks.get task = some row →
      (∃ old, s.tasks.get task = some old ∧ old.fleet = row.fleet ∧
        old.workspace = row.workspace ∧ old.reservedModelNanos = row.reservedModelNanos) ∨
      row.reservedModelNanos = 0 ∧ ∀ call ∈ s.calls, call.task ≠ some task) :
    Sound { s with tasks := tasks } := by
  refine { sound with owners := ?_, reserved := ?_ }
  · intro call held task row goal found
    rcases kept task row found with ⟨old, before, fleet, workspace, _⟩ | ⟨_, unnamed⟩
    · rw [← fleet, ← workspace]
      exact sound.owners call held task old goal before
    · exact absurd goal (unnamed call held)
  · intro task row found
    rcases kept task row found with ⟨old, before, _, _, reserved⟩ | ⟨zero, unnamed⟩
    · rw [← reserved]
      exact sound.reserved task old before
    · rw [zero, List.sum_eq_zero]
      intro amount member
      obtain ⟨call, held, rfl⟩ := List.mem_map.mp member
      simp [owed, unnamed call held]

theorem sound_log {settlement : Settlement} {cost : Int} {log : List Line} (sound : Sound s)
    (below : ∀ rated ∈ settlement.lines, rated.usage.seq < decisionSeqBase)
    (logged : logLines stamp settlement s.log = .ok (cost, log)) :
    Sound { s with log := log } := by
  have spec := logLines_logged logged sound.unique
  refine { sound with unique := spec.unique, lines := ?_, known := ?_ }
  · intro line member ranged
    rw [logLines_insert logged] at member
    rcases mem_insertLines member with old | ⟨rated, asked, rfl⟩
    · exact sound.lines line old ranged
    · have low := below rated asked
      change decisionSeqBase ≤ rated.usage.seq at ranged
      omega
  · intro call held status
    obtain ⟨line, member, own⟩ := sound.known call held status
    exact ⟨line, spec.kept line member, own⟩

theorem sound_commit {answer : Except Refusal System} (sound : Sound s)
    (kept : ∀ next, answer = .ok next → Sound next) : Sound (s.commit answer) := by
  cases answer with
  | error refused => exact sound
  | ok next => exact kept next rfl

theorem sound_step (event : Event) (sound : Sound s) : Sound (s.step digest event) := by
  cases event with
  | reserve reservation =>
      simp only [System.step]
      cases allocated : s.allocate reservation with
      | error refused => exact sound
      | ok answer => exact sound_allocate sound allocated
  | issue id now authorized => exact sound_issue sound
  | record owner fencingToken id receipt now stamp =>
      exact sound_commit sound fun next recorded => sound_record sound recorded
  | expire id now => exact sound_commit sound fun next expired => sound_expire sound expired
  | adopt task fleet workspace =>
      simp only [System.step]
      split
      · exact sound
      · rename_i fresh
        simp only [not_or, Bool.not_eq_true, List.any_eq_false, decide_eq_true_eq] at fresh
        apply sound_tasks sound
        intro other row found
        rw [SortedMap.get_insert] at found
        split at found
        · rename_i same
          cases found
          exact .inr ⟨rfl, same ▸ fresh.2⟩
        · exact .inl ⟨row, found, rfl, rfl, rfl⟩
  | erase task =>
      apply sound_tasks sound
      intro other row found
      rw [SortedMap.get_remove] at found
      split at found
      · exact nomatch found
      · exact .inl ⟨row, found, rfl, rfl, rfl⟩
  | spend task usedModelNanos =>
      simp only [System.step]
      cases held : s.tasks.get task with
      | none => exact sound
      | some before =>
          apply sound_tasks sound
          intro other row found
          rw [SortedMap.get_insert] at found
          split at found
          · rename_i same
            cases found
            exact .inl ⟨before, same ▸ held, rfl, rfl, rfl⟩
          · exact .inl ⟨row, found, rfl, rfl, rfl⟩
  | log stamp settlement =>
      simp only [System.step]
      split
      · exact sound
      · rename_i below
        simp only [Bool.not_eq_true, List.any_eq_false, decide_eq_true_eq, Nat.not_le] at below
        cases logged : logLines stamp settlement s.log with
        | error cause => exact sound
        | ok answer => exact sound_log sound below logged

end Steps

/-! ## Every run -/

structure Accounted (digest : Receipt → String) (s : System) : Prop where
  reserved : ∀ task row, s.tasks.get task = some row →
    row.reservedModelNanos = (s.calls.map (owed task)).sum
  once : (s.accountings.map Prod.fst).Nodup
  exact : ∀ call ∈ s.calls, call.accounted = true ↔ call.id ∈ s.accountings.map Prod.fst
  causes : ∀ entry ∈ s.accountings, ∃ call ∈ s.calls,
    call.id = entry.1 ∧ call.accountedAs entry.2
  swept : ∀ call ∈ s.calls, call.issued = true → ∀ now, s.step digest (.expire call.id now) = s
  replayed : ∀ call ∈ s.calls, call.accounted = true →
    ∀ owner fencingToken receipt now stamp,
      s.step digest (.record owner fencingToken call.id receipt now stamp) = s
  lines : ∀ call ∈ s.calls, call.status = .known → call.accounted = true ∧
    ∃ line ∈ s.log, line.key = call.lineKey ∧ call.chargedNanos = some line.rated.charged ∧
      ∀ other ∈ s.log, other.key = call.lineKey → other = line
  numbered : (s.calls.map Call.lineKey).Nodup
  retried : (s.calls.filterMap Call.retryOf).Nodup

theorem sound_final (digest : Receipt → String) (events : List Event) :
    Sound (Run.final (System.step digest) System.start events) :=
  Run.invariant_of_step Sound (fun _ event => sound_step event) sound_start events _
    (Run.final_mem_states _ _ _)

theorem find_held {s : System} {call : Call} (sound : Sound s) (held : call ∈ s.calls) :
    s.calls.find? (fun other => other.id = call.id) = some call := by
  cases found : s.calls.find? (fun other => decide (other.id = call.id)) with
  | none =>
      rw [List.find?_eq_none] at found
      exact absurd (found call held) (by simp)
  | some other =>
      obtain ⟨inside, same⟩ := find_id found
      rw [List.inj_on_of_nodup_map sound.ids inside held same]

theorem expire_issued {digest : Receipt → String} {s : System} {call : Call} (sound : Sound s)
    (held : call ∈ s.calls) (issued : call.issued = true) (now : Int) :
    s.expire digest call.id now = .ok s := by
  unfold System.expire
  rw [find_held sound held]
  simp [issued]

theorem record_accounted {digest : Receipt → String} {s : System} {call : Call}
    {owner : Owner} {fencingToken : Int} {receipt : Receipt} {now : Int} {stamp : Nat}
    (sound : Sound s) (held : call ∈ s.calls) (accounted : call.accounted = true) :
    s.commit (s.record digest owner fencingToken call.id receipt now stamp) = s := by
  unfold System.record
  rw [find_held sound held]
  simp only
  by_cases fenced : fencingToken ≠ owner.fence
  · rw [if_pos fenced]
    rfl
  · rw [if_neg fenced]
    by_cases owned : call.ownedBy owner = false
    · rw [if_pos owned]
      rfl
    · rw [if_neg owned]
      cases classified : classify call receipt (digest receipt) with
      | error refused => rfl
      | ok plan =>
          by_cases replay : plan = .replay
          · subst replay
            rfl
          · have free := (classify_open classified replay).1
            simp [Call.accounted, free] at accounted

/-- In every run of reservations, issuances, receipts, replays and sweeps, the
credit held on a task is what its open calls reserved, and a call is accounted
once, for its own cause, with one line where it was priced. -/
theorem calls_accounted_once (digest : Receipt → String) (events : List Event) :
    Accounted digest (Run.final (System.step digest) System.start events) := by
  have sound := sound_final digest events
  revert sound
  generalize Run.final (System.step digest) System.start events = s
  intro sound
  refine ⟨sound.reserved, sound.once, sound.exact, sound.named, ?_, ?_, ?_, ?_, sound.retries⟩
  · intro call held issued now
    simp only [System.step, expire_issued sound held issued now]
    rfl
  · intro call held accounted owner fencingToken receipt now stamp
    exact record_accounted sound held accounted
  · intro call held status
    obtain ⟨line, member, key, amount⟩ := sound.known call held status
    refine ⟨sound.settled call held status, line, member, key, amount, ?_⟩
    intro other inside same
    exact List.inj_on_of_nodup_map sound.unique inside member (same.trans key.symm)
  · have keys := sound.sequences.map
      (f := fun key : String × Nat => (WorkKey.fleetLease key.1, key.2))
      fun left right same => by
        simp only [Prod.mk.injEq, WorkKey.fleetLease.injEq] at same
        exact Prod.ext same.1 same.2
    rw [List.map_map] at keys
    exact keys

end Agentsfleet.Decision
