import Agentsfleet.Core.Bounds
import Mathlib.Data.String.Basic

/-!
# Schedules

A schedule row, what an edit makes of it, and the registration the external
scheduler should hold for it.  Every mutation leaves the row claimed: a token,
a lease and the next version.
-/

set_option autoImplicit false

namespace Agentsfleet.Cron

open Agentsfleet.Core

/-! ## Rows -/

inductive DesiredStatus where
  | active
  | paused
  | deleting
deriving DecidableEq

inductive SyncStatus where
  | syncing
  | synced
  | failed
deriving DecidableEq

inductive Status where
  | active
  | paused
deriving DecidableEq

def Status.desired : Status → DesiredStatus
  | .active => .active
  | .paused => .paused

structure Recipe where
  cron : String
  timezone : String
  message : String
  status : Status
deriving DecidableEq

structure Override where
  cron : Option String
  timezone : Option String
  message : Option String
  status : Option Status
deriving DecidableEq

/-- A pinned base and its instance overlay, versioned independently. -/
structure Inherited where
  slot : Int
  base : Recipe
  recipeRevision : Int
  setupRevision : Int
  overrideRevision : Int
  overrides : Option Override
deriving DecidableEq

def Inherited.effective (inherited : Inherited) : Recipe :=
  match inherited.overrides with
  | none => inherited.base
  | some overlay =>
      { cron := overlay.cron.getD inherited.base.cron
        timezone := overlay.timezone.getD inherited.base.timezone
        message := overlay.message.getD inherited.base.message
        status := overlay.status.getD inherited.base.status }

structure Schedule where
  scheduleId : String
  fleetId : String
  providerScheduleId : String
  cron : String
  timezone : String
  message : String
  once : Bool
  desiredStatus : DesiredStatus
  syncStatus : SyncStatus
  resourceVersion : Nat
  syncToken : Option String
  syncLeaseExpiresAt : Option Int
  lastError : Option String
  updatedAt : Int
  fireAt : Option Int
  recipe : Option Inherited
deriving DecidableEq

structure Registration where
  cron : String
  timezone : String
  message : String
deriving DecidableEq

def upstreamIdPrefix : String := "fleet-schedule-"

def upstreamId (schedule : String) : String := upstreamIdPrefix ++ schedule

theorem upstreamId_injective {first second : String} (same : upstreamId first = upstreamId second) :
    first = second :=
  (String.append_right_inj upstreamIdPrefix).mp same

/-! ## One-offs -/

def Schedule.neverRegistered (held : Schedule) : Bool :=
  decide (held.providerScheduleId = held.scheduleId)

def Schedule.missed (held : Schedule) : Bool :=
  held.once && held.neverRegistered &&
    match held.fireAt with
    | none => false
    | some instant => decide (instant ≤ held.updatedAt)

def Schedule.unregisteredKey (held : Schedule) : Option String :=
  if held.once = true ∧ held.desiredStatus = .paused then some held.scheduleId else none

/-- The registration a reconcile pushes: `none` removes it. -/
def Schedule.pushed (held : Schedule) : Option Registration :=
  match held.desiredStatus with
  | .paused | .deleting => none
  | .active => if held.missed then none else some ⟨held.cron, held.timezone, held.message⟩

/-! ## Claims -/

def syncLease : Int := 30000000

/-- When a statement's transaction began, and when the statement ran. -/
structure Stamp where
  now : Int
  clock : Int
deriving DecidableEq

def Schedule.claimable (row : Schedule) (clock : Int) : Bool :=
  match row.syncToken, row.syncLeaseExpiresAt with
  | some _, some expires => decide (expires ≤ clock)
  | _, _ => true

def Schedule.claim (row : Schedule) (token : String) (stamp : Stamp) : Schedule :=
  { row with
    syncStatus := .syncing
    resourceVersion := row.resourceVersion + 1
    syncToken := some token
    syncLeaseExpiresAt := some (stamp.clock + syncLease)
    lastError := none
    updatedAt := stamp.now }

def Schedule.release (row : Schedule) (now : Int) : Schedule :=
  { row with
    syncStatus := .syncing
    resourceVersion := row.resourceVersion + 1
    syncToken := none
    syncLeaseExpiresAt := none
    lastError := none
    updatedAt := now }

structure Change where
  cron : Option String
  timezone : Option String
  message : Option String
  desiredStatus : Option DesiredStatus
deriving DecidableEq

def Change.moved (change : Change) : Bool := change.cron.isSome || change.timezone.isSome

def Schedule.changed (row : Schedule) (change : Change) : Schedule :=
  { row with
    cron := change.cron.getD row.cron
    timezone := change.timezone.getD row.timezone
    message := change.message.getD row.message
    desiredStatus := change.desiredStatus.getD row.desiredStatus }

/-! ## Conditional edits -/

inductive EditRefusal where
  | noSuchFleet
  | precondition
  | stale
  | held
  | deleting
  | patch
  | exhausted
  | invalid
deriving DecidableEq

structure Tag where
  schedule : String
  version : Nat
  recipe : Option (Int × Int × Int)
deriving DecidableEq

def Schedule.etag (row : Schedule) : Tag where
  schedule := row.scheduleId
  version := row.resourceVersion
  recipe := row.recipe.map fun recipe =>
    (recipe.recipeRevision, recipe.setupRevision, recipe.overrideRevision)

/-- `overrides` is absent, null, or an overlay. -/
structure Patch where
  overrides : Option (Option Override)
  cron : Option String
  timezone : Option String
  message : Option String
  status : Option Status
deriving DecidableEq

def Patch.independent (patch : Patch) : Bool :=
  patch.cron.isSome || patch.timezone.isSome || patch.message.isSome || patch.status.isSome

def Override.empty (overlay : Override) : Bool :=
  overlay.cron.isNone && overlay.timezone.isNone && overlay.message.isNone && overlay.status.isNone

def checkTag (row : Schedule) (expected : Option Tag) : Except EditRefusal Unit :=
  match expected with
  | none => .error .precondition
  | some tag => if tag ≠ row.etag then .error .stale else .ok ()

def available (row : Schedule) (clock : Int) : Except EditRefusal Unit :=
  if row.claimable clock = false then .error .held
  else if row.desiredStatus = .deleting then .error .deleting
  else .ok ()

section Replacement

variable (valid : Recipe → Bool)

/-- What an edit replaces the row's intent with; `valid` is `validate::Fields`. -/
def replacement (row : Schedule) (patch : Patch) :
    Except EditRefusal (Recipe × Option Inherited) :=
  match row.recipe with
  | some base =>
      match patch.overrides with
      | none => .error .patch
      | some overlay =>
          if patch.independent || (overlay.map Override.empty).getD false then .error .patch
          else if inI64 (base.overrideRevision + 1) = false then .error .exhausted
          else
            let inherited : Inherited := { base with
              overrides := overlay
              overrideRevision := base.overrideRevision + 1 }
            if valid inherited.effective then .ok (inherited.effective, some inherited)
            else .error .invalid
  | none =>
      if patch.overrides.isSome || !patch.independent then .error .patch
      else
        let status := if row.desiredStatus = .paused then Status.paused else .active
        let effective : Recipe :=
          { cron := patch.cron.getD row.cron
            timezone := patch.timezone.getD row.timezone
            message := patch.message.getD row.message
            status := patch.status.getD status }
        if valid effective then .ok (effective, none) else .error .invalid

end Replacement

def Schedule.replaced (row : Schedule) (effective : Recipe) (inherited : Option Inherited) :
    Schedule :=
  { row with
    cron := effective.cron
    timezone := effective.timezone
    message := effective.message
    desiredStatus := effective.status.desired
    recipe := inherited }

/-! ## Outcomes -/

/-- `finalize_success.sql`. -/
def Schedule.finalizeSuccess (row : Schedule) (registered : Option String) (now : Int) :
    Schedule :=
  { row with
    syncStatus := .synced
    syncToken := none
    syncLeaseExpiresAt := none
    lastError := none
    updatedAt := now
    providerScheduleId := registered.getD row.providerScheduleId }

/-- `finalize_failure.sql`. -/
def Schedule.finalizeFailure (row : Schedule) (reason : String) (now : Int) : Schedule :=
  { row with
    syncStatus := .failed
    syncToken := none
    syncLeaseExpiresAt := none
    lastError := some reason
    updatedAt := now }

theorem pushed_active {held : Schedule} (active : held.desiredStatus = .active)
    (due : held.missed = false) :
    held.pushed = some ⟨held.cron, held.timezone, held.message⟩ := by
  rw [Schedule.pushed, active]
  simp only
  rw [due]
  rfl

theorem pushed_paused {held : Schedule} (paused : held.desiredStatus = .paused) :
    held.pushed = none := by
  rw [Schedule.pushed, paused]

theorem pushed_gone {held : Schedule} (gone : held.desiredStatus = .deleting ∨ held.missed = true) :
    held.pushed = none := by
  rw [Schedule.pushed]
  rcases gone with deleting | missed
  · rw [deleting]
  · cases held.desiredStatus with
    | active =>
        simp only
        rw [missed]
        rfl
    | paused => rfl
    | deleting => rfl

end Agentsfleet.Cron
