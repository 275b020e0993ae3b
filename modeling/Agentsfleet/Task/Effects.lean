import Agentsfleet.Core.Bounds
import Agentsfleet.Library.Run
import Agentsfleet.Library.Table
import Mathlib.Data.List.Range
import Mathlib.Data.Prod.Lex
import Mathlib.Data.String.Basic

/-!
# Publication effects

A publication is reserved under the task's lock, issued once, and resolved by
whoever learns its outcome: its publisher, a later reader or the sweep.  Each
transaction holds the rows it writes, so transactions take effect one at a
time; a crash between two of them leaves the rest undone.  What a transaction
reads of leases, fleets and configurations is data of its event.
-/

set_option autoImplicit false

namespace Agentsfleet.Task

inductive TaskState where
  | ready
  | running
  | waiting
  | blocked
  | paused
  | done
  | cancelled
  | exhausted
deriving DecidableEq

def TaskState.isTerminal : TaskState → Bool
  | .done | .cancelled | .exhausted => true
  | _ => false

end Agentsfleet.Task

namespace Agentsfleet.Task.Effects

open Agentsfleet.Core
open Agentsfleet.Library

/-! ## Rows -/

inductive TaskRefusal where
  | notFound
  | staleState
  | replayConflict
  | invalidTarget
  | limitExhausted
  | effectUncertain
deriving DecidableEq

inductive Fault where
  | refused (refusal : TaskRefusal)
  | lease
  | authority
  | query
deriving DecidableEq

structure BoundPr where
  repository : String
  repositoryId : Nat
  installationId : Nat
  number : Nat
  branch : String
  base : String
  head : String
  tree : String
  url : String
  workflows : List String
deriving DecidableEq

/-- The columns of `fleet.tasks` its lifecycle writes; `target` is `none` for a
task that only calls APIs. -/
structure Lifecycle where
  status : TaskState
  generation : Nat
  stopGeneration : Nat
  inputSequence : Nat
  coveredInputSequence : Nat
  target : Option BoundPr
  expiresAt : Int
  usedModelNanos : Nat
  reservedModelNanos : Nat
  usedRunningNanos : Nat
deriving DecidableEq

structure TaskRow where
  fleet : String
  workspace : String
  lifecycle : Lifecycle
  maxModelNanos : Nat
  maxRunningNanos : Nat
  maxPublications : Nat
  usedPublications : Nat
  effectCursor : Nat
  confirmedEffectWatermark : Nat
  resourceVersion : Nat
deriving DecidableEq

inductive TaskEffectState where
  | prepared
  | issued
  | confirmed
  | unknown
  | refused
deriving DecidableEq

def TaskEffectState.unresolved : TaskEffectState → Bool
  | .prepared | .issued | .unknown => true
  | .confirmed | .refused => false

structure TaskFileChange where
  path : String
  contents : Option String
deriving DecidableEq

structure DecisionTaskVersion where
  taskId : String
  generation : Nat
deriving DecidableEq

structure TaskEffectInput where
  operationId : String
  fencingToken : Nat
  task : DecisionTaskVersion
  sourceItemId : String
  coveredInputSequence : Nat
  expectedHead : String
  testedTree : String
  changes : List TaskFileChange
deriving DecidableEq

structure Canonical where
  task : DecisionTaskVersion
  sourceItemId : String
  coveredInputSequence : Nat
  expectedHead : String
  testedTree : String
  changes : List TaskFileChange
deriving DecidableEq

def TaskEffectInput.canonical (input : TaskEffectInput) : Canonical where
  task := input.task
  sourceItemId := input.sourceItemId
  coveredInputSequence := input.coveredInputSequence
  expectedHead := input.expectedHead
  testedTree := input.testedTree
  changes := input.changes

/-- A publication: its immutable row, its private payload and its state. -/
structure Effect where
  id : String
  taskId : String
  fleet : String
  workspace : String
  sourceItemId : String
  originalLease : String
  originalRunner : String
  originalFence : Int
  taskGeneration : Nat
  stopGeneration : Nat
  ordinal : Nat
  operationId : String
  coveredInputSequence : Nat
  expectedHead : String
  testedTree : String
  requestDigest : String
  issuanceExpiresAt : Int
  target : BoundPr
  request : Canonical
  state : TaskEffectState
  commit : Option String
  issuedAt : Option Int
  confirmedAt : Option Int
deriving DecidableEq

/-- Custody of the credential a later read reconciles with. -/
structure Recovery where
  effect : String
  expiresAt : Int
  dueAt : Int
deriving DecidableEq

/-- The tables, what is in flight of them, and every authorisation given: a
publisher holds the effect it reserved, the sweep the custody it claimed. -/
structure System where
  tasks : String → Option TaskRow
  effects : List Effect
  recoveries : List Recovery
  publishing : List (Effect × TaskEffectInput)
  claimed : List Recovery
  permits : List (String × String)

def System.start : System := ⟨fun _ => none, [], [], [], [], []⟩

def System.setTask (s : System) (id : String) (task : TaskRow) : System :=
  { s with tasks := fun other => if other = id then some task else s.tasks other }

def System.setEffect (s : System) (id : String) (change : Effect → Effect) : System :=
  { s with effects := Table.update (fun effect => decide (effect.id = id)) change s.effects }

/-! ## Owned execution -/

structure LeaseRow where
  lease : String
  runner : String
  fence : Int
  fleet : String
  workspace : String
  taskId : Option String
  taskGeneration : Option Nat
  taskStopGeneration : Option Nat
  fleetActive : Bool
  leaseExpiresAt : Int
  slotExpiresAt : Int
deriving DecidableEq

/-- `execution::on_current`. -/
def System.onCurrent (s : System) (now : Int) (current : LeaseRow)
    (expected : DecisionTaskVersion) : Except Fault TaskRow :=
  if current.taskId ≠ some expected.taskId then .error (.refused .staleState)
  else if current.fleetActive = false then .error (.refused .staleState)
  else
    match s.tasks expected.taskId with
    | none => .error (.refused .notFound)
    | some task =>
        if task.fleet ≠ current.fleet ∨ task.workspace ≠ current.workspace then
          .error (.refused .notFound)
        else if current.taskGeneration ≠ some task.lifecycle.generation ∨
            current.taskStopGeneration ≠ some task.lifecycle.stopGeneration ∨
            task.lifecycle.status ≠ .running ∨ task.lifecycle.expiresAt ≤ now then
          .error (.refused .staleState)
        else if task.maxModelNanos - task.lifecycle.reservedModelNanos ≤
              task.lifecycle.usedModelNanos ∨
            task.maxRunningNanos ≤ task.lifecycle.usedRunningNanos then
          .error (.refused .limitExhausted)
        else if task.lifecycle.generation ≠ expected.generation then
          .error (.refused .staleState)
        else .ok task

/-! ## Reservation -/

/-- What a reservation reads beside the tables: the lease it is presented with,
the new effect's id, the clocks, whether the item is accepted, and whether the
target lies within the current and the accepted configuration. -/
structure Reserve where
  lease : Except Fault LeaseRow
  input : TaskEffectInput
  id : String
  now : Int
  checkedAt : Int
  acceptedItem : Bool
  withinCurrent : Bool
  withinAccepted : Bool

def preparationSpan : Int := 90000000

def System.existing (s : System) (task operation : String) : Option Effect :=
  s.effects.find? fun effect =>
    decide (effect.taskId = task) && decide (effect.operationId = operation)

def System.free (s : System) (task : String) : Bool :=
  !s.effects.any fun effect => decide (effect.taskId = task) && effect.state.unresolved

def System.publicationContext (s : System) (call : Reserve) (task : TaskRow) :
    Except Fault BoundPr :=
  match task.lifecycle.target with
  | none => .error (.refused .invalidTarget)
  | some target =>
      if call.acceptedItem = false ∨
          task.lifecycle.inputSequence ≠ call.input.coveredInputSequence ∨
          task.lifecycle.coveredInputSequence ≠ call.input.coveredInputSequence ∨
          target.head ≠ call.input.expectedHead then
        .error (.refused .staleState)
      else if call.withinCurrent = false ∨ call.withinAccepted = false then
        .error (.refused .invalidTarget)
      else if s.free call.input.task.taskId = false ∨
          task.maxPublications ≤ task.usedPublications then
        .error (.refused .effectUncertain)
      else .ok target

section Transactions

variable (hash : Canonical → String)

def Reserve.effect (call : Reserve) (current : LeaseRow) (task : TaskRow) (target : BoundPr) :
    Effect where
  id := call.id
  taskId := call.input.task.taskId
  fleet := current.fleet
  workspace := current.workspace
  sourceItemId := call.input.sourceItemId
  originalLease := current.lease
  originalRunner := current.runner
  originalFence := current.fence
  taskGeneration := task.lifecycle.generation
  stopGeneration := task.lifecycle.stopGeneration
  ordinal := task.effectCursor + 1
  operationId := call.input.operationId
  coveredInputSequence := task.lifecycle.inputSequence
  expectedHead := call.input.expectedHead
  testedTree := call.input.testedTree
  requestDigest := hash call.input.canonical
  issuanceExpiresAt := call.checkedAt + preparationSpan
  target := target
  request := call.input.canonical
  state := .prepared
  commit := none
  issuedAt := none
  confirmedAt := none

def System.reserve (s : System) (call : Reserve) : Except Fault (Effect × Bool × System) :=
  match call.lease with
  | .error fault => .error fault
  | .ok current =>
      if current.taskId ≠ some call.input.task.taskId then .error (.refused .notFound)
      else
        match s.existing call.input.task.taskId call.input.operationId with
        | some effect =>
            if effect.requestDigest ≠ hash call.input.canonical then
              .error (.refused .replayConflict)
            else .ok (effect, true, s)
        | none =>
            match s.onCurrent call.now current call.input.task with
            | .error fault => .error fault
            | .ok task =>
                match s.publicationContext call task with
                | .error fault => .error fault
                | .ok target =>
                    if inI64 target.repositoryId = false ∨ inI64 target.installationId = false then
                      .error (.refused .invalidTarget)
                    else if s.effects.any fun effect => decide (effect.id = call.id) then
                      .error .query
                    else
                      let effect := call.effect hash current task target
                      .ok (effect, false,
                        { s.setTask call.input.task.taskId
                            { task with
                              effectCursor := task.effectCursor + 1
                              resourceVersion := task.resourceVersion + 1 } with
                          effects := s.effects ++ [effect]
                          publishing := s.publishing ++ [(effect, call.input)] })

/-! ## Outcomes -/

structure Issue where
  lease : Except Fault LeaseRow
  now : Int
  checkedAt : Int
  withinCurrent : Bool
  authority : Bool
  credentialExpiresAt : Int

def recoverySpan : Int := 3600000000

def System.issue (s : System) (call : Issue) (effect : Effect) (input : TaskEffectInput) :
    Except Fault System :=
  match call.lease with
  | .error fault => .error fault
  | .ok current =>
      match s.onCurrent call.now current input.task with
      | .error fault => .error fault
      | .ok task =>
          if min (min current.leaseExpiresAt current.slotExpiresAt) task.lifecycle.expiresAt ≤
              call.now then
            .error (.refused .staleState)
          else if task.lifecycle.generation ≠ effect.taskGeneration ∨
              task.lifecycle.stopGeneration ≠ effect.stopGeneration ∨
              task.lifecycle.coveredInputSequence ≠ input.coveredInputSequence ∨
              task.maxPublications ≤ task.usedPublications then
            .error (.refused .staleState)
          else if task.lifecycle.inputSequence ≠ input.coveredInputSequence ∨
              task.lifecycle.target.map BoundPr.head ≠ some effect.expectedHead then
            .error (.refused .staleState)
          else if call.withinCurrent = false then .error (.refused .invalidTarget)
          else if call.authority = false then .error .authority
          else if s.effects.any fun row => decide (row.id = effect.id) &&
              decide (row.state = .prepared) && decide (call.checkedAt < row.issuanceExpiresAt) then
            if s.recoveries.any fun custody => decide (custody.effect = effect.id) then
              .error .query
            else
              .ok { (s.setEffect effect.id fun row =>
                  { row with state := .issued, issuedAt := some call.checkedAt }).setTask
                    effect.taskId
                    { task with
                      usedPublications := task.usedPublications + 1
                      resourceVersion := task.resourceVersion + 1 } with
                recoveries := s.recoveries ++
                  [⟨effect.id, min call.credentialExpiresAt (call.checkedAt + recoverySpan),
                    call.checkedAt⟩]
                permits := s.permits ++ [(effect.taskId, effect.id)] }
          else .error (.refused .effectUncertain)

def Effect.confirmed (commit : String) (instant : Int) (effect : Effect) : Effect :=
  if effect.state = .issued ∨ effect.state = .unknown then
    { effect with state := .confirmed, commit := some commit, confirmedAt := some instant }
  else effect

def Effect.moved (previous state : TaskEffectState) (effect : Effect) : Effect :=
  if effect.state = previous then { effect with state := state } else effect

/-- The head a confirmed publication leaves the bound pull request at. -/
def BoundPr.advanced (target : BoundPr) (effect : Effect) (commit : String) : BoundPr :=
  if target.head = effect.expectedHead then
    { target with head := commit, tree := effect.testedTree }
  else target

def TaskRow.confirmed (task : TaskRow) (effect : Effect) (commit : String) : TaskRow :=
  { task with
    confirmedEffectWatermark := max task.confirmedEffectWatermark effect.ordinal
    lifecycle := { task.lifecycle with
      target := task.lifecycle.target.map fun target => target.advanced effect commit }
    resourceVersion := task.resourceVersion + 1 }

def System.dropRecovery (s : System) (id : String) : System :=
  { s with recoveries := s.recoveries.filter fun custody => decide (custody.effect ≠ id) }

def System.confirm (s : System) (id commit : String) (instant : Int) : System :=
  match s.effects.find? fun effect => decide (effect.id = id) with
  | none => s
  | some effect =>
      let confirmed := s.setEffect id (Effect.confirmed commit instant)
      let advanced :=
        if effect.state = .issued ∨ effect.state = .unknown then
          match s.tasks effect.taskId with
          | none => confirmed
          | some task => confirmed.setTask effect.taskId (task.confirmed effect commit)
        else confirmed
      advanced.dropRecovery id

def System.state (s : System) (id : String) (state previous : TaskEffectState) : System :=
  s.setEffect id (Effect.moved previous state)

def System.issuable (s : System) (leaseLive : Bool) (checkedAt : Int) (effect : Effect) : Bool :=
  leaseLive &&
    match s.tasks effect.taskId with
    | none => false
    | some task =>
        decide (task.fleet = effect.fleet) && decide (task.workspace = effect.workspace) &&
          decide (task.lifecycle.generation = effect.taskGeneration) &&
          decide (task.lifecycle.stopGeneration = effect.stopGeneration) &&
          decide (task.lifecycle.status = .running) &&
          decide (checkedAt < task.lifecycle.expiresAt)

/-- Refuses a preparation no issuer is left for; `leaseLive` is whether the lease
it was reserved under still holds its slot. -/
def System.abandon (s : System) (lease : Except Fault LeaseRow) (id : String) (leaseLive : Bool)
    (checkedAt : Int) : Except Fault System :=
  match lease with
  | .error fault => .error fault
  | .ok current =>
      match s.effects.find? fun effect => decide (effect.id = id) with
      | none => .error (.refused .notFound)
      | some effect =>
          if current.taskId ≠ some effect.taskId then .error (.refused .notFound)
          else if effect.issuanceExpiresAt ≤ checkedAt ∨
              s.issuable leaseLive checkedAt effect = false then
            .ok (s.state id .refused .prepared)
          else .ok s

/-! ## The sweep -/

def concurrentReads : Nat := 4

def recheckSpan : Int := 60000000

def System.due (s : System) (now : Int) : List Recovery :=
  Table.select (fun custody : Recovery => decide (custody.dueAt ≤ now))
    (fun custody => toLex (custody.dueAt, custody.effect)) concurrentReads s.recoveries

def System.claim (s : System) (now : Int) : System :=
  { s with
    claimed := s.claimed ++ s.due now
    recoveries := Table.update (fun custody => decide (custody ∈ s.due now))
      (fun custody => { custody with dueAt := now + recheckSpan }) s.recoveries }

def System.expire (s : System) (custody : Recovery) (now : Int) : System :=
  if custody.expiresAt ≤ now then
    (s.state custody.effect .unknown .issued).dropRecovery custody.effect
  else s

/-! ## Steps -/

inductive Event where
  /-- A task is admitted, or its lifecycle moves. -/
  | admitted (id : String) (task : TaskRow)
  | lifecycle (id : String) (change : Lifecycle)
  | reserve (call : Reserve)
  | issue (publisher : Nat) (call : Issue)
  | refuse (id : String)
  | unknown (id : String)
  | confirm (id commit : String) (instant : Int)
  | abandon (lease : Except Fault LeaseRow) (id : String) (leaseLive : Bool) (checkedAt : Int)
  | claim (now : Int)
  | expire (read : Nat) (now : Int)

def System.step (s : System) : Event → System
  | .admitted id task =>
      match s.tasks id with
      | some _ => s
      | none =>
          s.setTask id
            { task with usedPublications := 0, effectCursor := 0, confirmedEffectWatermark := 0 }
  | .lifecycle id change =>
      match s.tasks id with
      | none => s
      | some task => s.setTask id
          { task with lifecycle := change, resourceVersion := task.resourceVersion + 1 }
  | .reserve call =>
      match s.reserve hash call with
      | .error _ => s
      | .ok (_, _, next) => next
  | .issue publisher call =>
      match s.publishing[publisher]? with
      | none => s
      | some (effect, input) =>
          match s.issue call effect input with
          | .error _ => s
          | .ok next => next
  | .refuse id => s.state id .refused .prepared
  | .unknown id => s.state id .unknown .issued
  | .confirm id commit instant => s.confirm id commit instant
  | .abandon lease id leaseLive checkedAt =>
      match s.abandon lease id leaseLive checkedAt with
      | .error _ => s
      | .ok next => next
  | .claim now => s.claim now
  | .expire read now =>
      match s.claimed[read]? with
      | none => s
      | some custody => s.expire custody now

/-! ## What a transaction finds -/

variable {hash}

theorem onCurrent_ok {s : System} {now : Int} {current : LeaseRow}
    {expected : DecisionTaskVersion} {task : TaskRow}
    (owned : s.onCurrent now current expected = .ok task) :
    s.tasks expected.taskId = some task := by
  unfold System.onCurrent at owned
  split at owned
  · exact absurd owned (by simp)
  · split at owned
    · exact absurd owned (by simp)
    · cases held : s.tasks expected.taskId with
      | none => simp [held] at owned
      | some found =>
          rw [held] at owned
          simp only at owned
          split at owned
          · exact absurd owned (by simp)
          · split at owned
            · exact absurd owned (by simp)
            · split at owned
              · exact absurd owned (by simp)
              · split at owned
                · exact absurd owned (by simp)
                · rw [Except.ok.injEq] at owned
                  rw [owned]

theorem publicationContext_ok {s : System} {call : Reserve} {task : TaskRow} {target : BoundPr}
    (checked : s.publicationContext call task = .ok target) :
    s.free call.input.task.taskId = true ∧ task.usedPublications < task.maxPublications := by
  unfold System.publicationContext at checked
  cases bound : task.lifecycle.target with
  | none => simp [bound] at checked
  | some found =>
      rw [bound] at checked
      simp only at checked
      split at checked
      · exact absurd checked (by simp)
      · split at checked
        · exact absurd checked (by simp)
        · split at checked
          · exact absurd checked (by simp)
          · rename_i free
            rw [not_or, Bool.not_eq_false, Nat.not_le] at free
            exact free

structure Reserved (hash : Canonical → String) (s : System) (call : Reserve) (effect : Effect)
    (next : System) : Prop where
  task : ∃ task, s.tasks call.input.task.taskId = some task ∧
    effect.ordinal = task.effectCursor + 1 ∧
      next.tasks = (s.setTask call.input.task.taskId
        { task with
          effectCursor := task.effectCursor + 1
          resourceVersion := task.resourceVersion + 1 }).tasks
  owner : effect.taskId = call.input.task.taskId
  operation : effect.operationId = call.input.operationId
  unrecorded : s.existing call.input.task.taskId call.input.operationId = none
  digest : effect.requestDigest = hash effect.request
  fresh : effect.id ∉ s.effects.map Effect.id
  free : s.free call.input.task.taskId = true
  prepared : effect.state = .prepared
  effects : next.effects = s.effects ++ [effect]
  publishing : next.publishing = s.publishing ++ [(effect, call.input)]
  permits : next.permits = s.permits

theorem reserve_ok {s next : System} {call : Reserve} {effect : Effect} {replayed : Bool}
    (reserved : s.reserve hash call = .ok (effect, replayed, next)) :
    next = s ∨ Reserved hash s call effect next := by
  unfold System.reserve at reserved
  cases lease : call.lease with
  | error fault => simp [lease] at reserved
  | ok current =>
      rw [lease] at reserved
      simp only at reserved
      split at reserved
      · exact absurd reserved (by simp)
      · cases recorded : s.existing call.input.task.taskId call.input.operationId with
        | some old =>
            rw [recorded] at reserved
            simp only at reserved
            split at reserved
            · exact absurd reserved (by simp)
            · simp only [Except.ok.injEq, Prod.mk.injEq] at reserved
              exact .inl reserved.2.2.symm
        | none =>
            rw [recorded] at reserved
            cases owned : s.onCurrent call.now current call.input.task with
            | error fault => simp [owned] at reserved
            | ok task =>
                simp only [owned] at reserved
                cases checked : s.publicationContext call task with
                | error fault => simp [checked] at reserved
                | ok target =>
                    simp only [checked] at reserved
                    split at reserved
                    · exact absurd reserved (by simp)
                    · split at reserved
                      · exact absurd reserved (by simp)
                      · rename_i fresh
                        simp only [Except.ok.injEq, Prod.mk.injEq] at reserved
                        obtain ⟨rfl, _, rfl⟩ := reserved
                        right
                        refine ⟨⟨task, onCurrent_ok owned, rfl, rfl⟩, rfl, rfl, recorded, rfl, ?_,
                          (publicationContext_ok checked).1, rfl, rfl, rfl, rfl⟩
                        intro member
                        obtain ⟨row, inside, same⟩ := List.mem_map.mp member
                        apply fresh
                        exact List.any_eq_true.mpr ⟨row, inside, decide_eq_true same⟩

structure Issued (s : System) (effect : Effect) (input : TaskEffectInput) (next : System) :
    Prop where
  task : ∃ task, s.tasks input.task.taskId = some task ∧
    task.usedPublications < task.maxPublications ∧
      next.tasks = (s.setTask effect.taskId
        { task with
          usedPublications := task.usedPublications + 1
          resourceVersion := task.resourceVersion + 1 }).tasks
  prepared : ∃ row ∈ s.effects, row.id = effect.id ∧ row.state = .prepared
  effects : ∃ instant, next.effects = (s.setEffect effect.id fun row =>
    { row with state := .issued, issuedAt := some instant }).effects
  publishing : next.publishing = s.publishing
  permits : next.permits = s.permits ++ [(effect.taskId, effect.id)]

theorem issue_ok {s next : System} {call : Issue} {effect : Effect} {input : TaskEffectInput}
    (issued : s.issue call effect input = .ok next) : Issued s effect input next := by
  unfold System.issue at issued
  cases lease : call.lease with
  | error fault => simp [lease] at issued
  | ok current =>
      simp only [lease] at issued
      cases owned : s.onCurrent call.now current input.task with
      | error fault => simp [owned] at issued
      | ok task =>
          simp only [owned] at issued
          split at issued
          · exact absurd issued (by simp)
          · split at issued
            · exact absurd issued (by simp)
            · rename_i standing
              split at issued
              · exact absurd issued (by simp)
              · split at issued
                · exact absurd issued (by simp)
                · split at issued
                  · exact absurd issued (by simp)
                  · split at issued
                    · rename_i found
                      split at issued
                      · exact absurd issued (by simp)
                      · rw [Except.ok.injEq] at issued
                        subst issued
                        obtain ⟨row, inside, held⟩ := List.any_eq_true.mp found
                        simp only [Bool.and_eq_true, decide_eq_true_eq] at held
                        rw [not_or, not_or, not_or, Nat.not_le] at standing
                        exact ⟨⟨task, onCurrent_ok owned, standing.2.2.2, rfl⟩,
                          ⟨row, inside, held.1.1, held.1.2⟩, ⟨_, rfl⟩, rfl, rfl⟩
                    · exact absurd issued (by simp)

/-! ## What holds of every task's publications -/

def TaskEffectState.authorised : TaskEffectState → Bool
  | .issued | .unknown | .confirmed => true
  | .prepared | .refused => false

def System.ordinals (s : System) (task : String) : List Nat :=
  s.effects.filterMap fun effect => if effect.taskId = task then some effect.ordinal else none

def System.publications (s : System) (task : String) : Nat :=
  s.permits.countP fun permit => decide (permit.1 = task)

structure Sound (s : System) : Prop where
  ids : (s.effects.map Effect.id).Nodup
  owned : ∀ effect ∈ s.effects, ∃ task, s.tasks effect.taskId = some task
  ordinals : ∀ id task, s.tasks id = some task → s.ordinals id = List.range' 1 task.effectCursor
  single : ∀ first ∈ s.effects, ∀ second ∈ s.effects, first.taskId = second.taskId →
    first.state.unresolved = true → second.state.unresolved = true → first.id = second.id
  limit : ∀ id task, s.tasks id = some task →
    s.publications id = task.usedPublications ∧ task.usedPublications ≤ task.maxPublications
  permits : (s.permits.map Prod.snd).Nodup
  permitted : ∀ permit ∈ s.permits, ∃ effect ∈ s.effects, effect.taskId = permit.1 ∧
    effect.id = permit.2 ∧ effect.state.authorised = true
  publishing : ∀ entry ∈ s.publishing, entry.1.taskId = entry.2.task.taskId ∧
    ∃ effect ∈ s.effects, effect.taskId = entry.1.taskId ∧ effect.id = entry.1.id

theorem sound_setTask {s : System} (sound : Sound s) {id : String} {old task : TaskRow}
    (held : s.tasks id = some old) (cursor : task.effectCursor = old.effectCursor)
    (used : task.usedPublications = old.usedPublications)
    (limit : task.maxPublications = old.maxPublications) : Sound (s.setTask id task) := by
  have read : ∀ other found, (s.setTask id task).tasks other = some found →
      ∃ before, s.tasks other = some before ∧ found.effectCursor = before.effectCursor ∧
        found.usedPublications = before.usedPublications ∧
          found.maxPublications = before.maxPublications := by
    intro other found there
    by_cases same : other = id
    · subst same
      simp only [System.setTask, if_true, Option.some.injEq] at there
      subst there
      exact ⟨old, held, cursor, used, limit⟩
    · simp only [System.setTask, if_neg same] at there
      exact ⟨found, there, rfl, rfl, rfl⟩
  refine ⟨sound.ids, ?_, ?_, sound.single, ?_, sound.permits, sound.permitted,
    sound.publishing⟩
  · intro effect member
    obtain ⟨found, there⟩ := sound.owned effect member
    by_cases same : effect.taskId = id
    · exact ⟨task, by simp [System.setTask, same]⟩
    · exact ⟨found, by simpa [System.setTask, same] using there⟩
  · intro other found there
    obtain ⟨before, at_before, same, _⟩ := read other found there
    rw [same]
    exact sound.ordinals other before at_before
  · intro other found there
    obtain ⟨before, at_before, _, same_used, same_limit⟩ := read other found there
    rw [same_used, same_limit]
    exact sound.limit other before at_before

/-- An effect's state written so that nothing becomes unresolved and no
authorisation is given or forgotten. -/
theorem sound_setEffect {s : System} (sound : Sound s) (id : String) {change : Effect → Effect}
    (same_id : ∀ effect, (change effect).id = effect.id)
    (same_task : ∀ effect, (change effect).taskId = effect.taskId)
    (same_ordinal : ∀ effect, (change effect).ordinal = effect.ordinal)
    (unresolved : ∀ effect, (change effect).state.unresolved = true →
      effect.state.unresolved = true)
    (authorised : ∀ effect, (change effect).state.authorised = effect.state.authorised) :
    Sound (s.setEffect id change) := by
  have written : ∀ effect ∈ s.effects, ∃ after ∈ (s.setEffect id change).effects,
      after.taskId = effect.taskId ∧ after.id = effect.id ∧
        after.state.authorised = effect.state.authorised := by
    intro effect member
    refine ⟨_, Table.mem_update.mpr ⟨effect, member, rfl⟩, ?_⟩
    split
    · exact ⟨same_task effect, same_id effect, authorised effect⟩
    · exact ⟨rfl, rfl, rfl⟩
  have origin : ∀ after ∈ (s.setEffect id change).effects, ∃ effect ∈ s.effects,
      after.taskId = effect.taskId ∧ after.id = effect.id ∧
        (after.state.unresolved = true → effect.state.unresolved = true) := by
    intro after member
    obtain ⟨effect, inside, rfl⟩ := Table.mem_update.mp member
    refine ⟨effect, inside, ?_⟩
    split
    · exact ⟨same_task effect, same_id effect, unresolved effect⟩
    · exact ⟨rfl, rfl, fun held => held⟩
  refine ⟨?_, ?_, ?_, ?_, sound.limit, sound.permits, ?_, ?_⟩
  · rw [System.setEffect, Table.column_update Effect.id _ change same_id]
    exact sound.ids
  · intro after member
    obtain ⟨effect, inside, task, _⟩ := origin after member
    rw [task]
    exact sound.owned effect inside
  · intro other task held
    rw [System.ordinals, System.setEffect, Table.filterMap_update]
    · exact sound.ordinals other task held
    · intro effect
      rw [same_task, same_ordinal]
  · intro first first_in second second_in same first_open second_open
    obtain ⟨one, one_in, one_task, one_id, one_open⟩ := origin first first_in
    obtain ⟨two, two_in, two_task, two_id, two_open⟩ := origin second second_in
    rw [one_id, two_id]
    exact sound.single one one_in two two_in (one_task.symm.trans (same.trans two_task))
      (one_open first_open) (two_open second_open)
  · intro permit member
    obtain ⟨effect, inside, task, same, given⟩ := sound.permitted permit member
    obtain ⟨after, there, after_task, after_id, after_given⟩ := written effect inside
    exact ⟨after, there, after_task.trans task, after_id.trans same, after_given.trans given⟩
  · intro entry member
    obtain ⟨mine, effect, inside, task, same⟩ := sound.publishing entry member
    obtain ⟨after, there, after_task, after_id, _⟩ := written effect inside
    exact ⟨mine, after, there, after_task.trans task, after_id.trans same⟩

theorem sound_state {s : System} (sound : Sound s) (id : String)
    {state previous : TaskEffectState}
    (resolves : state.unresolved = true → previous.unresolved = true)
    (same : state.authorised = previous.authorised) : Sound (s.state id state previous) := by
  apply sound_setEffect sound
  · intro effect
    unfold Effect.moved
    split <;> rfl
  · intro effect
    unfold Effect.moved
    split <;> rfl
  · intro effect
    unfold Effect.moved
    split <;> rfl
  · intro effect
    unfold Effect.moved
    split
    · rename_i held
      rw [held]
      exact resolves
    · exact fun held => held
  · intro effect
    unfold Effect.moved
    split
    · rename_i held
      rw [held]
      exact same
    · rfl

theorem sound_custody {s : System} (sound : Sound s) (recoveries claimed : List Recovery) :
    Sound { s with recoveries := recoveries, claimed := claimed } :=
  ⟨sound.ids, sound.owned, sound.ordinals, sound.single, sound.limit, sound.permits,
    sound.permitted, sound.publishing⟩

theorem sound_confirm {s : System} (sound : Sound s) (id commit : String) (instant : Int) :
    Sound (s.confirm id commit instant) := by
  unfold System.confirm
  cases found : s.effects.find? fun effect => decide (effect.id = id) with
  | none => exact sound
  | some effect =>
      have confirmed : Sound (s.setEffect id (Effect.confirmed commit instant)) := by
        apply sound_setEffect sound
        · intro effect
          unfold Effect.confirmed
          split <;> rfl
        · intro effect
          unfold Effect.confirmed
          split <;> rfl
        · intro effect
          unfold Effect.confirmed
          split <;> rfl
        · intro effect
          unfold Effect.confirmed
          split
          · simp [TaskEffectState.unresolved]
          · exact fun held => held
        · intro effect
          unfold Effect.confirmed
          split
          · rename_i held
            rcases held with issued | unknown
            · rw [issued]
              rfl
            · rw [unknown]
              rfl
          · rfl
      simp only
      split
      · cases held : s.tasks effect.taskId with
        | none => exact sound_custody confirmed _ _
        | some task =>
            have advanced : Sound ((s.setEffect id (Effect.confirmed commit instant)).setTask
                effect.taskId (task.confirmed effect commit)) :=
              sound_setTask confirmed held rfl rfl rfl
            exact sound_custody advanced _ _
      · exact sound_custody confirmed _ _

theorem free_iff {s : System} {task : String} :
    s.free task = true ↔
      ∀ effect ∈ s.effects, effect.taskId = task → effect.state.unresolved = false := by
  simp [System.free]

theorem sound_reserved {s next : System} {call : Reserve} {effect : Effect} (sound : Sound s)
    (reserved : Reserved hash s call effect next) : Sound next := by
  obtain ⟨task, held, ordinal, tasks⟩ := reserved.task
  have free := free_iff.mp reserved.free
  have owner := reserved.owner
  have at_task : next.tasks call.input.task.taskId = some { task with
      effectCursor := task.effectCursor + 1
      resourceVersion := task.resourceVersion + 1 } := by
    rw [tasks]
    simp [System.setTask]
  have elsewhere : ∀ other, other ≠ call.input.task.taskId →
      next.tasks other = s.tasks other := by
    intro other apart
    rw [tasks]
    simp [System.setTask, apart]
  have counted : ∀ other, next.publications other = s.publications other := by
    intro other
    rw [System.publications, reserved.permits]
    rfl
  refine ⟨?_, ?_, ?_, ?_, ?_, ?_, ?_, ?_⟩
  · rw [reserved.effects, List.map_append, List.map_singleton]
    exact sound.ids.append (List.nodup_singleton _) (by simpa using reserved.fresh)
  · intro other member
    by_cases mine : other.taskId = call.input.task.taskId
    · rw [mine]
      exact ⟨_, at_task⟩
    · rw [elsewhere _ mine]
      rw [reserved.effects] at member
      rcases List.mem_append.mp member with old | new
      · exact sound.owned other old
      · rw [List.mem_singleton.mp new] at mine
        exact absurd owner mine
  · intro other found there
    rw [System.ordinals, reserved.effects, List.filterMap_append]
    by_cases mine : other = call.input.task.taskId
    · subst mine
      rw [at_task, Option.some.injEq] at there
      subst there
      have before := sound.ordinals _ task held
      rw [System.ordinals] at before
      rw [before, List.range'_1_concat]
      simp [owner, ordinal, Nat.add_comm]
    · rw [elsewhere other mine] at there
      have before := sound.ordinals other found there
      rw [System.ordinals] at before
      rw [before]
      simp [owner, Ne.symm mine]
  · intro first first_in second second_in same first_open second_open
    rw [reserved.effects, List.mem_append, List.mem_singleton] at first_in second_in
    rcases first_in with first_old | rfl
    · rcases second_in with second_old | rfl
      · exact sound.single first first_old second second_old same first_open second_open
      · have closed := free first first_old (same.trans owner)
        rw [closed] at first_open
        exact absurd first_open (by decide)
    · rcases second_in with second_old | rfl
      · have closed := free second second_old (same.symm.trans owner)
        rw [closed] at second_open
        exact absurd second_open (by decide)
      · rfl
  · intro other found there
    rw [counted]
    by_cases mine : other = call.input.task.taskId
    · subst mine
      rw [at_task, Option.some.injEq] at there
      subst there
      exact sound.limit _ task held
    · rw [elsewhere other mine] at there
      exact sound.limit other found there
  · rw [reserved.permits]
    exact sound.permits
  · rw [reserved.permits, reserved.effects]
    intro permit member
    obtain ⟨row, inside, given⟩ := sound.permitted permit member
    exact ⟨row, List.mem_append_left _ inside, given⟩
  · rw [reserved.publishing, reserved.effects]
    intro entry member
    rcases List.mem_append.mp member with old | new
    · obtain ⟨mine, row, inside, same⟩ := sound.publishing entry old
      exact ⟨mine, row, List.mem_append_left _ inside, same⟩
    · rw [List.mem_singleton.mp new]
      exact ⟨owner, effect, List.mem_append_right _ (List.mem_singleton_self _), rfl, rfl⟩

/-- The effect issued is the publisher's, prepared until now, so no permit of it
was given before. -/
theorem sound_issued {s next : System} {effect : Effect} {input : TaskEffectInput}
    (sound : Sound s) (publishing : (effect, input) ∈ s.publishing)
    (issued : Issued s effect input next) : Sound next := by
  obtain ⟨mine, row, row_in, row_task, row_id⟩ := sound.publishing _ publishing
  obtain ⟨task, held, room, tasks⟩ := issued.task
  obtain ⟨prepared, prepared_in, prepared_id, unissued⟩ := issued.prepared
  obtain ⟨instant, effects⟩ := issued.effects
  have same_row : prepared = row :=
    List.inj_on_of_nodup_map sound.ids prepared_in row_in (prepared_id.trans row_id.symm)
  subst same_row
  rw [← mine] at held
  have fresh : effect.id ∉ s.permits.map Prod.snd := by
    intro member
    obtain ⟨permit, given, same⟩ := List.mem_map.mp member
    obtain ⟨other, inside, _, id, authorised⟩ := sound.permitted permit given
    have equal : other = prepared :=
      List.inj_on_of_nodup_map sound.ids inside prepared_in
        (id.trans (same.trans prepared_id.symm))
    rw [equal, unissued] at authorised
    exact absurd authorised (by decide)
  have at_task : next.tasks effect.taskId = some { task with
      usedPublications := task.usedPublications + 1
      resourceVersion := task.resourceVersion + 1 } := by
    rw [tasks]
    simp [System.setTask]
  have elsewhere : ∀ other, other ≠ effect.taskId → next.tasks other = s.tasks other := by
    intro other apart
    rw [tasks]
    simp [System.setTask, apart]
  have origin : ∀ after ∈ next.effects, ∃ before ∈ s.effects, after.taskId = before.taskId ∧
      after.id = before.id ∧ (after.state.unresolved = true → before.state.unresolved = true) := by
    intro after member
    rw [effects] at member
    obtain ⟨before, inside, rfl⟩ := Table.mem_update.mp member
    refine ⟨before, inside, ?_⟩
    split
    · rename_i here
      have equal : before = prepared :=
        List.inj_on_of_nodup_map sound.ids inside prepared_in
          ((of_decide_eq_true here).trans prepared_id.symm)
      refine ⟨rfl, rfl, fun _ => ?_⟩
      rw [equal, unissued]
      rfl
    · exact ⟨rfl, rfl, fun held => held⟩
  have written : ∀ before ∈ s.effects, ∃ after ∈ next.effects, after.taskId = before.taskId ∧
      after.id = before.id ∧
        (before.state.authorised = true ∨ before.id = effect.id →
          after.state.authorised = true) := by
    intro before inside
    rw [effects]
    refine ⟨_, Table.mem_update.mpr ⟨before, inside, rfl⟩, ?_⟩
    split
    · exact ⟨rfl, rfl, fun _ => rfl⟩
    · rename_i apart
      rw [Bool.not_eq_true, decide_eq_false_iff_not] at apart
      exact ⟨rfl, rfl, fun given => given.resolve_right apart⟩
  refine ⟨?_, ?_, ?_, ?_, ?_, ?_, ?_, ?_⟩
  · rw [effects, System.setEffect, Table.column_update Effect.id]
    · exact sound.ids
    · intro row
      rfl
  · intro after member
    obtain ⟨before, inside, same, _⟩ := origin after member
    rw [same]
    by_cases here : before.taskId = effect.taskId
    · rw [here]
      exact ⟨_, at_task⟩
    · rw [elsewhere _ here]
      exact sound.owned before inside
  · intro other found there
    have kept : next.ordinals other = s.ordinals other := by
      rw [System.ordinals, effects, System.setEffect, Table.filterMap_update]
      · rfl
      · intro row
        rfl
    rw [kept]
    by_cases here : other = effect.taskId
    · subst here
      rw [at_task, Option.some.injEq] at there
      subst there
      exact sound.ordinals _ task held
    · rw [elsewhere other here] at there
      exact sound.ordinals other found there
  · intro first first_in second second_in same first_open second_open
    obtain ⟨one, one_in, one_task, one_id, one_open⟩ := origin first first_in
    obtain ⟨two, two_in, two_task, two_id, two_open⟩ := origin second second_in
    rw [one_id, two_id]
    exact sound.single one one_in two two_in (one_task.symm.trans (same.trans two_task))
      (one_open first_open) (two_open second_open)
  · intro other found there
    have given : next.publications other =
        s.publications other + if effect.taskId = other then 1 else 0 := by
      rw [System.publications, issued.permits, List.countP_append, List.countP_singleton]
      simp [System.publications]
    by_cases here : other = effect.taskId
    · subst here
      obtain ⟨used, _⟩ := sound.limit _ task held
      rw [at_task, Option.some.injEq] at there
      subst there
      rw [given, if_pos rfl, used]
      exact ⟨rfl, room⟩
    · rw [elsewhere other here] at there
      rw [given, if_neg (Ne.symm here)]
      exact sound.limit other found there
  · rw [issued.permits, List.map_append, List.map_singleton]
    exact sound.permits.append (List.nodup_singleton _) (by simpa using fresh)
  · rw [issued.permits]
    intro permit member
    rcases List.mem_append.mp member with old | new
    · obtain ⟨before, inside, task, id, authorised⟩ := sound.permitted permit old
      obtain ⟨after, there, after_task, after_id, given⟩ := written before inside
      exact ⟨after, there, after_task.trans task, after_id.trans id, given (.inl authorised)⟩
    · rw [List.mem_singleton.mp new]
      obtain ⟨after, there, after_task, after_id, given⟩ := written prepared prepared_in
      exact ⟨after, there, after_task.trans row_task, after_id.trans row_id,
        given (.inr prepared_id)⟩
  · rw [issued.publishing]
    intro entry member
    obtain ⟨own, before, inside, task, id⟩ := sound.publishing entry member
    obtain ⟨after, there, after_task, after_id, _⟩ := written before inside
    exact ⟨own, after, there, after_task.trans task, after_id.trans id⟩

theorem sound_admitted {s : System} (sound : Sound s) {id : String} (unknown : s.tasks id = none)
    (task : TaskRow) :
    Sound (s.setTask id
      { task with usedPublications := 0, effectCursor := 0, confirmedEffectWatermark := 0 }) := by
  have unowned : ∀ effect ∈ s.effects, effect.taskId ≠ id := by
    intro effect member same
    obtain ⟨found, held⟩ := sound.owned effect member
    rw [same, unknown] at held
    exact absurd held (by simp)
  refine ⟨sound.ids, ?_, ?_, sound.single, ?_, sound.permits, sound.permitted,
    sound.publishing⟩
  · intro effect member
    obtain ⟨found, held⟩ := sound.owned effect member
    exact ⟨found, by simpa [System.setTask, unowned effect member] using held⟩
  · intro other found there
    by_cases same : other = id
    · subst same
      simp only [System.setTask, if_true, Option.some.injEq] at there
      subst there
      have none_here : s.ordinals other = [] := by
        apply List.filterMap_eq_nil_iff.mpr
        intro effect member
        rw [if_neg (unowned effect member)]
      exact none_here
    · simp only [System.setTask, if_neg same] at there
      exact sound.ordinals other found there
  · intro other found there
    by_cases same : other = id
    · subst same
      simp only [System.setTask, if_true, Option.some.injEq] at there
      subst there
      refine ⟨List.countP_eq_zero.mpr ?_, Nat.zero_le _⟩
      intro permit member
      obtain ⟨effect, inside, task, _⟩ := sound.permitted permit member
      have apart := unowned effect inside
      simpa [← task] using apart
    · simp only [System.setTask, if_neg same] at there
      exact sound.limit other found there

/-! ## What a step does -/

inductive Stepped (hash : Canonical → String) (s : System) : System → Prop
  | custody (recoveries claimed : List Recovery) :
      Stepped hash s { s with recoveries := recoveries, claimed := claimed }
  | admitted (id : String) (task : TaskRow) (unknown : s.tasks id = none) :
      Stepped hash s (s.setTask id
        { task with usedPublications := 0, effectCursor := 0, confirmedEffectWatermark := 0 })
  | lifecycle (id : String) (task : TaskRow) (change : Lifecycle) (held : s.tasks id = some task) :
      Stepped hash s (s.setTask id
        { task with lifecycle := change, resourceVersion := task.resourceVersion + 1 })
  | reserved (call : Reserve) (effect : Effect) (next : System)
      (reserved : Reserved hash s call effect next) : Stepped hash s next
  | issued (effect : Effect) (input : TaskEffectInput) (next : System)
      (publishing : (effect, input) ∈ s.publishing) (issued : Issued s effect input next) :
      Stepped hash s next
  | refused (id : String) : Stepped hash s (s.state id .refused .prepared)
  | lost (id : String) (recoveries : List Recovery) :
      Stepped hash s { s.state id .unknown .issued with recoveries := recoveries }
  | confirmed (id commit : String) (instant : Int) : Stepped hash s (s.confirm id commit instant)

theorem stepped_same (s : System) : Stepped hash s s := .custody s.recoveries s.claimed

theorem stepped_reserve (s : System) (call : Reserve) :
    Stepped hash s (s.step hash (.reserve call)) := by
  simp only [System.step]
  cases reserved : s.reserve hash call with
  | error fault => exact stepped_same s
  | ok answer =>
      obtain ⟨effect, replayed, next⟩ := answer
      simp only
      rcases reserve_ok reserved with rfl | written
      · exact stepped_same next
      · exact .reserved call effect next written

theorem stepped_issue (s : System) (publisher : Nat) (call : Issue) :
    Stepped hash s (s.step hash (.issue publisher call)) := by
  simp only [System.step]
  cases held : s.publishing[publisher]? with
  | none => exact stepped_same s
  | some entry =>
      obtain ⟨effect, input⟩ := entry
      simp only
      cases issued : s.issue call effect input with
      | error fault => exact stepped_same s
      | ok next => exact .issued effect input next (List.mem_of_getElem? held) (issue_ok issued)

theorem stepped_abandon (s : System) (lease : Except Fault LeaseRow) (id : String)
    (leaseLive : Bool) (checkedAt : Int) :
    Stepped hash s (s.step hash (.abandon lease id leaseLive checkedAt)) := by
  simp only [System.step, System.abandon]
  cases lease with
  | error fault => exact stepped_same s
  | ok current =>
      cases s.effects.find? fun effect => decide (effect.id = id) with
      | none => exact stepped_same s
      | some effect =>
          simp only
          by_cases other : current.taskId ≠ some effect.taskId
          · rw [if_pos other]
            exact stepped_same s
          · rw [if_neg other]
            by_cases fenced : effect.issuanceExpiresAt ≤ checkedAt ∨
                s.issuable leaseLive checkedAt effect = false
            · rw [if_pos fenced]
              exact .refused id
            · rw [if_neg fenced]
              exact stepped_same s

theorem stepped (s : System) (event : Event) : Stepped hash s (s.step hash event) := by
  cases event with
  | admitted id task =>
      simp only [System.step]
      cases unknown : s.tasks id with
      | none => exact .admitted id task unknown
      | some found => exact stepped_same s
  | lifecycle id change =>
      simp only [System.step]
      cases held : s.tasks id with
      | none => exact stepped_same s
      | some task => exact .lifecycle id task change held
  | reserve call => exact stepped_reserve s call
  | issue publisher call => exact stepped_issue s publisher call
  | refuse id => exact .refused id
  | unknown id => exact .lost id s.recoveries
  | confirm id commit instant => exact .confirmed id commit instant
  | abandon lease id leaseLive checkedAt => exact stepped_abandon s lease id leaseLive checkedAt
  | claim now => exact .custody _ _
  | expire read now =>
      simp only [System.step]
      cases s.claimed[read]? with
      | none => exact stepped_same s
      | some custody =>
          simp only [System.expire]
          split
          · exact .lost custody.effect _
          · exact stepped_same s

theorem sound_step {s next : System} (step : Stepped hash s next) (sound : Sound s) :
    Sound next := by
  cases step with
  | custody recoveries claimed => exact sound_custody sound recoveries claimed
  | admitted id task unknown => exact sound_admitted sound unknown task
  | lifecycle id task change held => exact sound_setTask sound held rfl rfl rfl
  | reserved call effect next reserved => exact sound_reserved sound reserved
  | issued effect input next publishing issued => exact sound_issued sound publishing issued
  | refused id => exact sound_state sound id (by simp [TaskEffectState.unresolved]) rfl
  | lost id recoveries =>
      have moved : Sound (s.state id .unknown .issued) :=
        sound_state sound id (fun _ => rfl) rfl
      exact sound_custody moved recoveries s.claimed
  | confirmed id commit instant => exact sound_confirm sound id commit instant

/-! ## What one step does to an effect -/

inductive TaskEffectState.Moves : TaskEffectState → TaskEffectState → Prop
  | same (state : TaskEffectState) : Moves state state
  | issue : Moves .prepared .issued
  | refuse : Moves .prepared .refused
  | lose : Moves .issued .unknown
  | confirm : Moves .issued .confirmed
  | recover : Moves .unknown .confirmed

theorem TaskEffectState.Moves.refused {before after : TaskEffectState} (moves : before.Moves after)
    (refused : before = .refused) : after = .refused := by
  cases moves with
  | same => exact refused
  | issue | refuse | lose | confirm | recover => exact absurd refused (by decide)

structure Effect.Moves (before after : Effect) : Prop where
  intent : after = { before with
    state := after.state
    commit := after.commit
    issuedAt := after.issuedAt
    confirmedAt := after.confirmedAt }
  state : before.state.Moves after.state

theorem Effect.moves_refl (effect : Effect) : effect.Moves effect := ⟨rfl, .same _⟩

theorem Effect.Moves.id {before after : Effect} (moves : before.Moves after) :
    after.id = before.id := by
  rw [moves.intent]

theorem Effect.Moves.recorded {before after : Effect} (moves : before.Moves after) :
    after.taskId = before.taskId ∧ after.operationId = before.operationId ∧
      after.requestDigest = before.requestDigest ∧ after.request = before.request := by
  rw [moves.intent]
  exact ⟨rfl, rfl, rfl, rfl⟩

theorem moves_moved {state previous : TaskEffectState} (allowed : previous.Moves state)
    (effect : Effect) : effect.Moves (effect.moved previous state) := by
  unfold Effect.moved
  by_cases held : effect.state = previous
  · rw [if_pos held]
    exact ⟨rfl, held ▸ allowed⟩
  · rw [if_neg held]
    exact effect.moves_refl

theorem moves_confirmed (commit : String) (instant : Int) (effect : Effect) :
    effect.Moves (effect.confirmed commit instant) := by
  unfold Effect.confirmed
  by_cases held : effect.state = .issued ∨ effect.state = .unknown
  · rw [if_pos held]
    refine ⟨rfl, ?_⟩
    rcases held with issued | unknown
    · exact issued ▸ .confirm
    · exact unknown ▸ .recover
  · rw [if_neg held]
    exact effect.moves_refl

/-- What a step does to the table of effects: it moves some in place, or appends
the one it reserved. -/
inductive Written (hash : Canonical → String) (s next : System) : Prop
  | moved (id : String) (change : Effect → Effect)
      (moves : ∀ effect ∈ s.effects, effect.id = id → effect.Moves (change effect))
      (effects : next.effects = (s.setEffect id change).effects)
  | kept (effects : next.effects = s.effects)
  | reserved (call : Reserve) (effect : Effect) (reserved : Reserved hash s call effect next)

theorem written_confirm (s : System) (id commit : String) (instant : Int) :
    Written hash s (s.confirm id commit instant) := by
  unfold System.confirm
  cases s.effects.find? fun effect => decide (effect.id = id) with
  | none => exact .kept rfl
  | some effect =>
      refine .moved id _ (fun row _ _ => moves_confirmed commit instant row) ?_
      simp only
      split
      · cases s.tasks effect.taskId with
        | none => rfl
        | some task => rfl
      · rfl

theorem written_step {s next : System} (step : Stepped hash s next) (sound : Sound s) :
    Written hash s next := by
  cases step with
  | custody recoveries claimed => exact .kept rfl
  | admitted id task unknown => exact .kept rfl
  | lifecycle id task change held => exact .kept rfl
  | reserved call effect next reserved => exact .reserved call effect reserved
  | issued effect input next publishing issued =>
      obtain ⟨instant, effects⟩ := issued.effects
      obtain ⟨prepared, prepared_in, prepared_id, unissued⟩ := issued.prepared
      refine .moved effect.id _ ?_ effects
      intro row inside same
      -- Ids are unique, so the row written is the one found prepared.
      have equal : row = prepared :=
        List.inj_on_of_nodup_map sound.ids inside prepared_in (same.trans prepared_id.symm)
      refine ⟨rfl, ?_⟩
      rw [equal, unissued]
      exact .issue
  | refused id => exact .moved id _ (fun effect _ _ => moves_moved .refuse effect) rfl
  | lost id recoveries => exact .moved id _ (fun effect _ _ => moves_moved .lose effect) rfl
  | confirmed id commit instant => exact written_confirm s id commit instant

theorem moves_step {s next : System} (step : Stepped hash s next) (sound : Sound s)
    {effect : Effect} (member : effect ∈ s.effects) :
    ∃ after ∈ next.effects, effect.Moves after := by
  cases written_step step sound with
  | moved id change moves effects =>
      rw [effects]
      refine ⟨_, Table.mem_update.mpr ⟨effect, member, rfl⟩, ?_⟩
      by_cases here : effect.id = id
      · rw [if_pos (decide_eq_true here)]
        exact moves effect member here
      · rw [if_neg (by simpa using here)]
        exact effect.moves_refl
  | kept effects =>
      rw [effects]
      exact ⟨effect, member, effect.moves_refl⟩
  | reserved call new reserved =>
      rw [reserved.effects]
      exact ⟨effect, List.mem_append_left _ member, effect.moves_refl⟩

/-- Every effect of the next state is one this state has, moved, or the one just
reserved, prepared. -/
theorem origin_step {s next : System} (step : Stepped hash s next) (sound : Sound s)
    {after : Effect} (member : after ∈ next.effects) :
    (∃ effect ∈ s.effects, effect.Moves after) ∨ ∃ call, Reserved hash s call after next := by
  cases written_step step sound with
  | moved id change moves effects =>
      rw [effects] at member
      obtain ⟨effect, inside, rfl⟩ := Table.mem_update.mp member
      refine .inl ⟨effect, inside, ?_⟩
      by_cases here : effect.id = id
      · rw [if_pos (decide_eq_true here)]
        exact moves effect inside here
      · rw [if_neg (by simpa using here)]
        exact effect.moves_refl
  | kept effects =>
      rw [effects] at member
      exact .inl ⟨after, member, after.moves_refl⟩
  | reserved call new reserved =>
      rw [reserved.effects] at member
      rcases List.mem_append.mp member with old | fresh
      · exact .inl ⟨after, old, after.moves_refl⟩
      · rw [List.mem_singleton.mp fresh]
        exact .inr ⟨call, reserved⟩

theorem refused_step {s next : System} (step : Stepped hash s next) (sound : Sound s)
    {id : String} (refused : ∃ effect ∈ s.effects, effect.id = id ∧ effect.state = .refused) :
    ∃ effect ∈ next.effects, effect.id = id ∧ effect.state = .refused := by
  obtain ⟨effect, inside, same, refused⟩ := refused
  obtain ⟨after, there, moves⟩ := moves_step step sound inside
  refine ⟨after, there, moves.id.trans same, ?_⟩
  exact moves.state.refused refused

/-! ## Recorded operations -/

structure Recorded (hash : Canonical → String) (s : System) : Prop where
  digests : ∀ effect ∈ s.effects, effect.requestDigest = hash effect.request
  operations : ∀ first ∈ s.effects, ∀ second ∈ s.effects, first.taskId = second.taskId →
    first.operationId = second.operationId → first.id = second.id

theorem existing_none {s : System} {task operation : String}
    (unrecorded : s.existing task operation = none) :
    ∀ effect ∈ s.effects, effect.taskId = task → effect.operationId ≠ operation := by
  intro effect inside mine same
  have passed := List.find?_eq_none.mp unrecorded effect inside
  simp [mine, same] at passed

theorem existing_some {s : System} {task operation : String} {effect : Effect}
    (recorded : s.existing task operation = some effect) :
    effect ∈ s.effects ∧ effect.taskId = task ∧ effect.operationId = operation := by
  have held := List.find?_some recorded
  simp only [Bool.and_eq_true, decide_eq_true_eq] at held
  exact ⟨List.mem_of_find?_eq_some recorded, held.1, held.2⟩

theorem recorded_step {s next : System} (step : Stepped hash s next) (sound : Sound s)
    (recorded : Recorded hash s) : Recorded hash next := by
  refine ⟨?_, ?_⟩
  · intro after member
    rcases origin_step step sound member with ⟨effect, inside, moves⟩ | ⟨call, reserved⟩
    · obtain ⟨_, _, digest, request⟩ := moves.recorded
      rw [digest, request]
      exact recorded.digests effect inside
    · exact reserved.digest
  · intro first first_in second second_in same_task same_operation
    rcases origin_step step sound first_in with ⟨one, one_in, one_moves⟩ | ⟨call, reserved⟩
    · obtain ⟨one_task, one_operation, _⟩ := one_moves.recorded
      rcases origin_step step sound second_in with ⟨two, two_in, two_moves⟩ | ⟨call, reserved⟩
      · obtain ⟨two_task, two_operation, _⟩ := two_moves.recorded
        rw [one_moves.id, two_moves.id]
        exact recorded.operations one one_in two two_in
          (one_task.symm.trans (same_task.trans two_task))
          (one_operation.symm.trans (same_operation.trans two_operation))
      · have task := one_task.symm.trans (same_task.trans reserved.owner)
        have operation := one_operation.symm.trans (same_operation.trans reserved.operation)
        exact absurd operation (existing_none reserved.unrecorded one one_in task)
    · have second_new := second_in
      rw [reserved.effects] at second_new
      rcases List.mem_append.mp second_new with old | new
      · have task := same_task.symm.trans reserved.owner
        have operation := same_operation.symm.trans reserved.operation
        exact absurd operation (existing_none reserved.unrecorded second old task)
      · rw [List.mem_singleton.mp new]

/-- A request for a recorded operation writes nothing, and is refused unless its
body has the recorded body's digest. -/
theorem replay_refused {s : System} (recorded : Recorded hash s) (sound : Sound s) {call : Reserve}
    {effect : Effect} (member : effect ∈ s.effects)
    (task : effect.taskId = call.input.task.taskId)
    (operation : effect.operationId = call.input.operationId) :
    s.step hash (.reserve call) = s ∧
      ((∃ fault, s.reserve hash call = .error fault) ∨
        hash effect.request = hash call.input.canonical) := by
  have unwritten : s.reserve hash call =
      match call.lease with
      | .error fault => .error fault
      | .ok current =>
          if current.taskId ≠ some call.input.task.taskId then .error (.refused .notFound)
          else if effect.requestDigest ≠ hash call.input.canonical then
            .error (.refused .replayConflict)
          else .ok (effect, true, s) := by
    have found : s.existing call.input.task.taskId call.input.operationId = some effect := by
      cases held : s.existing call.input.task.taskId call.input.operationId with
      | none => exact absurd operation (existing_none held effect member task)
      | some other =>
          obtain ⟨inside, other_task, other_operation⟩ := existing_some held
          have same := recorded.operations other inside effect member
            (other_task.trans task.symm) (other_operation.trans operation.symm)
          rw [List.inj_on_of_nodup_map sound.ids inside member same]
    rw [System.reserve]
    cases call.lease with
    | error fault => rfl
    | ok current => simp only [found]
  rw [System.step, unwritten]
  cases call.lease with
  | error fault => exact ⟨rfl, .inl ⟨fault, rfl⟩⟩
  | ok current =>
      simp only
      by_cases other : current.taskId ≠ some call.input.task.taskId
      · rw [if_pos other]
        exact ⟨rfl, .inl ⟨_, rfl⟩⟩
      · rw [if_neg other]
        by_cases conflict : effect.requestDigest ≠ hash call.input.canonical
        · rw [if_pos conflict]
          exact ⟨rfl, .inl ⟨_, rfl⟩⟩
        · rw [if_neg conflict]
          rw [not_not, recorded.digests effect member] at conflict
          exact ⟨rfl, .inr conflict⟩

/-! ## The watermark -/

def Raised (s next : System) : Prop :=
  ∀ id task, s.tasks id = some task → ∃ after, next.tasks id = some after ∧
    task.confirmedEffectWatermark ≤ after.confirmedEffectWatermark

theorem raised_of_tasks {s next : System} (same : next.tasks = s.tasks) : Raised s next := by
  intro id task held
  exact ⟨task, by rw [same]; exact held, Nat.le_refl _⟩

theorem raised_setTask {s next : System} {id : String} {old task : TaskRow}
    (held : s.tasks id = some old)
    (higher : old.confirmedEffectWatermark ≤ task.confirmedEffectWatermark)
    (tasks : next.tasks = (s.setTask id task).tasks) : Raised s next := by
  intro other found there
  rw [tasks]
  by_cases same : other = id
  · subst same
    rw [held, Option.some.injEq] at there
    subst there
    exact ⟨task, by simp [System.setTask], higher⟩
  · exact ⟨found, by simpa [System.setTask, same] using there, Nat.le_refl _⟩

theorem raised_confirm (s : System) (id commit : String) (instant : Int) :
    Raised s (s.confirm id commit instant) := by
  unfold System.confirm
  cases s.effects.find? fun effect => decide (effect.id = id) with
  | none => exact raised_of_tasks rfl
  | some effect =>
      simp only
      split
      · cases held : s.tasks effect.taskId with
        | none => exact raised_of_tasks rfl
        | some task =>
            have higher : task.confirmedEffectWatermark ≤
                (task.confirmed effect commit).confirmedEffectWatermark := Nat.le_max_left _ _
            exact raised_setTask held higher rfl
      · exact raised_of_tasks rfl

theorem raised_step {s next : System} (step : Stepped hash s next) (sound : Sound s) :
    Raised s next := by
  cases step with
  | custody recoveries claimed => exact raised_of_tasks rfl
  | admitted id task unknown =>
      intro other found there
      have apart : other ≠ id := by
        intro same
        rw [same, unknown] at there
        exact absurd there (by simp)
      exact ⟨found, by simpa [System.setTask, apart] using there, Nat.le_refl _⟩
  | lifecycle id task change held => exact raised_setTask held (by rfl) rfl
  | reserved call effect next reserved =>
      obtain ⟨task, held, _, tasks⟩ := reserved.task
      exact raised_setTask held (by rfl) tasks
  | issued effect input next publishing issued =>
      obtain ⟨task, held, _, tasks⟩ := issued.task
      have mine := (sound.publishing _ publishing).1
      exact raised_setTask (mine ▸ held) (by rfl) tasks
  | refused id => exact raised_of_tasks rfl
  | lost id recoveries => exact raised_of_tasks rfl
  | confirmed id commit instant => exact raised_confirm s id commit instant

/-! ## Whole histories -/

theorem sound_start : Sound System.start where
  ids := List.nodup_nil
  owned _ member := absurd member List.not_mem_nil
  ordinals id task held := by simp [System.start] at held
  single _ member := absurd member List.not_mem_nil
  limit id task held := by simp [System.start] at held
  permits := List.nodup_nil
  permitted _ member := absurd member List.not_mem_nil
  publishing _ member := absurd member List.not_mem_nil

theorem recorded_start : Recorded hash System.start where
  digests _ member := absurd member List.not_mem_nil
  operations _ member := absurd member List.not_mem_nil

theorem refused_run {s : System} (sound : Sound s) {id : String}
    (refused : ∃ effect ∈ s.effects, effect.id = id ∧ effect.state = .refused)
    (events : List Event) : ∀ later ∈ Run.states (System.step hash) s events,
      ∃ effect ∈ later.effects, effect.id = id ∧ effect.state = .refused := by
  intro later member
  have held := Run.invariant_of_step
    (fun s => Sound s ∧ ∃ effect ∈ s.effects, effect.id = id ∧ effect.state = .refused)
    (fun s event held => ⟨sound_step (stepped s event) held.1,
      refused_step (stepped s event) held.1 held.2⟩) ⟨sound, refused⟩ events later member
  exact held.2

theorem unresolved_le_one {s : System} (sound : Sound s) (task : String) :
    (s.effects.countP fun effect =>
      decide (effect.taskId = task) && effect.state.unresolved) ≤ 1 := by
  rw [List.countP_eq_length_filter]
  have distinct := List.Nodup.sublist (List.Sublist.map Effect.id
    (List.filter_sublist (p := fun effect =>
      decide (effect.taskId = task) && effect.state.unresolved) (l := s.effects))) sound.ids
  have alone : ∀ effect ∈ s.effects.filter (fun effect =>
      decide (effect.taskId = task) && effect.state.unresolved),
      effect ∈ s.effects ∧ effect.taskId = task ∧ effect.state.unresolved = true := by
    intro effect member
    simpa [List.mem_filter] using member
  revert distinct alone
  generalize s.effects.filter _ = unresolved
  intro distinct alone
  cases unresolved with
  | nil => exact Nat.zero_le 1
  | cons first rest =>
      cases rest with
      | nil => exact Nat.le_refl 1
      | cons second rest =>
          obtain ⟨first_in, first_task, first_open⟩ := alone first (by simp)
          obtain ⟨second_in, second_task, second_open⟩ := alone second (by simp)
          have same := sound.single first first_in second second_in
            (first_task.trans second_task.symm) first_open second_open
          simp [same] at distinct

/-- What holds of the publications at `s`, and of whatever comes next. -/
structure EffectsKept (hash : Canonical → String) (s : System) : Prop where
  single : ∀ task, (s.effects.countP fun effect =>
    decide (effect.taskId = task) && effect.state.unresolved) ≤ 1
  /-- No effect's mutation was authorised twice, or while prepared or refused. -/
  once : (s.permits.map Prod.snd).Nodup
  authorised : ∀ permit ∈ s.permits, ∀ effect ∈ s.effects, effect.id = permit.2 →
    effect.state.authorised = true
  issues : ∀ event, ∃ given, (s.step hash event).permits = s.permits ++ given ∧
    ∀ permit ∈ given, ∃ effect ∈ s.effects, effect.id = permit.2 ∧ effect.state = .prepared
  moves : ∀ event, ∀ effect ∈ s.effects, ∃ after ∈ (s.step hash event).effects,
    effect.Moves after
  refused : ∀ effect ∈ s.effects, effect.state = .refused → ∀ events,
    ∀ later ∈ Run.states (System.step hash) s events,
      ∃ after ∈ later.effects, after.id = effect.id ∧ after.state = .refused
  limit : ∀ id task, s.tasks id = some task →
    s.publications id = task.usedPublications ∧ task.usedPublications ≤ task.maxPublications
  ordinals : ∀ id task, s.tasks id = some task → s.ordinals id = List.range' 1 task.effectCursor
  watermark : ∀ event, Raised s (s.step hash event)
  replay : ∀ call : Reserve, ∀ effect ∈ s.effects, effect.taskId = call.input.task.taskId →
    effect.operationId = call.input.operationId → call.input.canonical ≠ effect.request →
      s.step hash (.reserve call) = s ∧
        ((∃ fault, s.reserve hash call = .error fault) ∨
          hash effect.request = hash call.input.canonical)

theorem authorised_of_permit {s : System} (sound : Sound s) {permit : String × String}
    (given : permit ∈ s.permits) {effect : Effect} (member : effect ∈ s.effects)
    (same : effect.id = permit.2) : effect.state.authorised = true := by
  obtain ⟨row, inside, _, id, authorised⟩ := sound.permitted permit given
  rwa [List.inj_on_of_nodup_map sound.ids member inside (same.trans id.symm)]

theorem permits_step {s next : System} (step : Stepped hash s next) :
    ∃ given, next.permits = s.permits ++ given ∧
      ∀ permit ∈ given, ∃ effect ∈ s.effects, effect.id = permit.2 ∧ effect.state = .prepared := by
  have unchanged {after : System} (same : after.permits = s.permits) :
      ∃ given, after.permits = s.permits ++ given ∧ ∀ permit ∈ given,
        ∃ effect ∈ s.effects, effect.id = permit.2 ∧ effect.state = .prepared :=
    ⟨[], by simpa using same, fun permit member => absurd member List.not_mem_nil⟩
  cases step with
  | custody | admitted | lifecycle | refused | lost => exact unchanged rfl
  | reserved call effect next reserved => exact unchanged reserved.permits
  | issued effect input next publishing issued =>
      refine ⟨_, issued.permits, ?_⟩
      intro permit member
      rw [List.mem_singleton.mp member]
      exact issued.prepared
  | confirmed id commit instant =>
      apply unchanged
      unfold System.confirm
      cases s.effects.find? fun effect => decide (effect.id = id) with
      | none => rfl
      | some effect =>
          simp only
          split
          · cases s.tasks effect.taskId with
            | none => rfl
            | some task => rfl
          · rfl

/-- In every interleaving of reservations, issues, receipts, replays and sweeps,
cut short anywhere. -/
theorem effects_issued_once (hash : Canonical → String) (events : List Event) :
    ∀ reached ∈ Run.states (System.step hash) System.start events, EffectsKept hash reached := by
  intro reached member
  obtain ⟨sound, recorded⟩ := Run.invariant_of_step (fun s => Sound s ∧ Recorded hash s)
    (fun s event held => ⟨sound_step (stepped s event) held.1,
      recorded_step (stepped s event) held.1 held.2⟩)
    ⟨sound_start, recorded_start⟩ events reached member
  exact {
    single := unresolved_le_one sound
    once := sound.permits
    authorised := fun permit given effect inside same =>
      authorised_of_permit sound given inside same
    issues := fun event => permits_step (stepped reached event)
    moves := fun event effect inside => moves_step (stepped reached event) sound inside
    refused := fun effect inside refused => refused_run sound ⟨effect, inside, rfl, refused⟩
    limit := sound.limit
    ordinals := sound.ordinals
    watermark := fun event => raised_step (stepped reached event) sound
    replay := fun call effect inside task operation _ =>
      replay_refused recorded sound inside task operation }

end Transactions

/-! ## A publication -/

def publishedTarget : BoundPr :=
  ⟨"repo", 7, 11, 3, "fix", "main", "h0", "t0", "url", []⟩

def publishedTask : TaskRow where
  fleet := "fleet"
  workspace := "workspace"
  lifecycle := ⟨.running, 1, 1, 1, 1, some publishedTarget, 1000, 0, 0, 0⟩
  maxModelNanos := 10
  maxRunningNanos := 10
  maxPublications := 1
  usedPublications := 0
  effectCursor := 0
  confirmedEffectWatermark := 0
  resourceVersion := 1

def publishedLease : LeaseRow :=
  ⟨"lease", "runner", 4, "fleet", "workspace", some "task", some 1, some 1, true, 500, 500⟩

def publishedInput : TaskEffectInput :=
  ⟨"operation", 4, ⟨"task", 1⟩, "item", 1, "h0", "t1", []⟩

def publishedReserve : Reserve :=
  ⟨.ok publishedLease, publishedInput, "effect", 10, 10, true, true, true⟩

def publishedRun : List Event :=
  [.admitted "task" publishedTask, .reserve publishedReserve, .reserve publishedReserve,
    .issue 0 ⟨.ok publishedLease, 20, 20, true, true, 900⟩,
    .issue 0 ⟨.ok publishedLease, 21, 21, true, true, 900⟩, .refuse "effect",
    .confirm "effect" "commit" 30]

theorem effects_issued_once_published :
    (Run.final (System.step fun _ => "digest") System.start publishedRun).permits =
        [("task", "effect")] ∧
      (Run.final (System.step fun _ => "digest") System.start publishedRun).effects.map
        Effect.state = [.confirmed] ∧
      EffectsKept (fun _ => "digest")
        (Run.final (System.step fun _ => "digest") System.start publishedRun) := by
  refine ⟨by decide +kernel, by decide +kernel, ?_⟩
  exact effects_issued_once _ publishedRun _ (Run.final_mem_states _ _ publishedRun)

end Agentsfleet.Task.Effects
