import Agentsfleet.Cron.Schedule
import Agentsfleet.Library.Run

/-!
# The schedule fence

Syncers claim rows, push what a row says to the external scheduler, and release
their fence with the outcome.  Each database transaction is one step, and so is
each request to the scheduler; another syncer may come between any two, once the
lease has run out.  A request may be lost on its way or on its way back.
-/

set_option autoImplicit false

namespace Agentsfleet.Cron

open Agentsfleet.Library

/-! ## State -/

/-- Where a reconcile stands; `left` is how many more times it may push. -/
inductive Phase where
  | claimed
  | checked (left : Nat)
  | agreed
  | refused (left : Nat) (reason : String)
  | finished
deriving DecidableEq

/-- A caller reconciling the row it claimed. -/
structure Syncer where
  held : Schedule
  token : String
  phase : Phase
deriving DecidableEq

/-- The table, every id minted for it, what the scheduler holds by upstream id,
and every reconcile begun. -/
structure System where
  rows : String → Option Schedule
  minted : List String
  registrations : String → Option Registration
  syncers : List Syncer

def System.start : System := ⟨fun _ => none, [], fun _ => none, []⟩

def System.setRow (s : System) (id : String) (row : Option Schedule) : System :=
  { s with rows := fun other => if other = id then row else s.rows other }

def System.register (s : System) (id : String) (registration : Option Registration) : System :=
  { s with
    registrations := fun other =>
      if other = upstreamId id then registration else s.registrations other }

def System.setPhase (s : System) (n : Nat) (syncer : Syncer) (phase : Phase) : System :=
  { s with syncers := s.syncers.set n { syncer with phase := phase } }

def System.take (s : System) (held : Schedule) (token : String) : System :=
  { s.setRow held.scheduleId (some held) with syncers := s.syncers ++ [⟨held, token, .claimed⟩] }

/-! ## Claims -/

structure NewSchedule where
  fleet : String
  providerScheduleId : Option String
  cron : String
  timezone : String
  message : String
  once : Bool
deriving DecidableEq

section Statements

variable (valid : Recipe → Bool) (nextFire : String → String → Int → Option Int)

/-- `fire_at::stamp`. -/
def Schedule.stamped (row : Schedule) (counted : Int) : Schedule :=
  { row with fireAt := nextFire row.cron row.timezone counted }

def NewSchedule.row (new : NewSchedule) (id token : String) (stamp : Stamp) : Schedule :=
  let row : Schedule :=
    { scheduleId := id
      fleetId := new.fleet
      providerScheduleId := new.providerScheduleId.getD id
      cron := new.cron
      timezone := new.timezone
      message := new.message
      once := new.once
      desiredStatus := .active
      syncStatus := .syncing
      resourceVersion := 1
      syncToken := some token
      syncLeaseExpiresAt := some (stamp.clock + syncLease)
      lastError := none
      updatedAt := stamp.now
      fireAt := none
      recipe := none }
  if new.once then row.stamped nextFire stamp.now else row

/-- `admitted` is what the counts, the duplicate check and the guard answer. -/
def System.create (s : System) (new : NewSchedule) (id token : String) (stamp : Stamp)
    (admitted : Bool) : Option Schedule :=
  if admitted = false ∨ id ∈ s.minted then none else some (new.row nextFire id token stamp)

/-- `found` is whether the fleet stands and the guard holds. -/
def System.claimChange (s : System) (fleet schedule : String) (change : Change) (token : String)
    (stamp : Stamp) (found : Bool) : Option Schedule :=
  match s.rows schedule with
  | none => none
  | some row =>
      if found = false ∨ row.fleetId ≠ fleet ∨ row.claimable stamp.clock = false then none
      else
        let claimed := (row.changed change).claim token stamp
        if claimed.once = true ∧ change.moved = true then
          some (claimed.stamped nextFire claimed.updatedAt)
        else some claimed

/-- Takes the fence over the row's current state, changing nothing else. -/
def System.claimCurrent (s : System) (fleet schedule token : String) (stamp : Stamp) :
    Option Schedule :=
  match s.rows schedule with
  | none => none
  | some row =>
      if row.fleetId ≠ fleet ∨ row.claimable stamp.clock = false then none
      else some (row.claim token stamp)

structure EditRequest where
  fleet : String
  schedule : String
  expected : Option Tag
  patch : Patch
deriving DecidableEq

def System.lock (s : System) (request : EditRequest) (clock : Int) (owned : Bool) :
    Except EditRefusal Schedule :=
  if owned = false then .error .noSuchFleet
  else
    match s.rows request.schedule with
    | none => .error .noSuchFleet
    | some row =>
        if row.fleetId ≠ request.fleet then .error .noSuchFleet
        else
          match checkTag row request.expected with
          | .error refusal => .error refusal
          | .ok () =>
              match available row clock with
              | .error refusal => .error refusal
              | .ok () => .ok row

def System.edit (s : System) (request : EditRequest) (token : String) (stamp : Stamp)
    (owned : Bool) : Except EditRefusal Schedule :=
  match s.lock request stamp.clock owned with
  | .error refusal => .error refusal
  | .ok row =>
      match replacement valid row request.patch with
      | .error refusal => .error refusal
      | .ok (effective, inherited) =>
          let edited := (row.replaced effective inherited).claim token stamp
          .ok (if edited.once then edited.stamped nextFire edited.updatedAt else edited)

/-! ## Setup -/

def Inherited.row (inherited : Inherited) (fleet id key : String) (now : Int) : Schedule :=
  { scheduleId := id
    fleetId := fleet
    providerScheduleId := key
    cron := inherited.effective.cron
    timezone := inherited.effective.timezone
    message := inherited.effective.message
    once := false
    desiredStatus := inherited.effective.status.desired
    syncStatus := .syncing
    resourceVersion := 1
    syncToken := none
    syncLeaseExpiresAt := none
    lastError := none
    updatedAt := now
    fireAt := none
    recipe := some inherited }

/-- A recipe slot's schedule moved to its new base, or retired with its slot. -/
def System.resetup (s : System) (id : String) (inherited : Option Inherited) (stamp : Stamp) :
    Option Schedule :=
  match s.rows id with
  | none => none
  | some row =>
      if row.recipe.isNone ∨ row.claimable stamp.clock = false then none
      else
        match inherited with
        | some inherited =>
            some ((row.replaced inherited.effective (some inherited)).release stamp.now)
        | none => some ({ row with desiredStatus := .deleting }.release stamp.now)

end Statements

/-! ## Reconciling -/

def Phase.sending : Phase → Option Nat
  | .checked (left + 1) | .refused (left + 1) _ => some left
  | _ => none

inductive Attempts where
  | single
  | retried
deriving DecidableEq

def Attempts.sends : Attempts → Nat
  | .single => 1
  | .retried => 3

/-- The row a fence still names: its version and its token. -/
def System.fenced (s : System) (syncer : Syncer) : Option Schedule :=
  match s.rows syncer.held.scheduleId with
  | none => none
  | some row =>
      if row.resourceVersion = syncer.held.resourceVersion ∧
          row.syncToken = some syncer.token then some row
      else none

def System.check (s : System) (n : Nat) (syncer : Syncer) (attempts : Attempts) : System :=
  match syncer.phase with
  | .claimed =>
      match s.fenced syncer with
      | none => s.setPhase n syncer .finished
      | some _ => s.setPhase n syncer (.checked attempts.sends)
  | _ => s

/-- What becomes of one request: the scheduler takes it and says so, takes it
without being heard, or does not take it. -/
inductive Answer where
  | agreed
  | lost (reason : String)
  | refused (reason : String)
deriving DecidableEq

def System.push (s : System) (n : Nat) (syncer : Syncer) (answer : Answer) : System :=
  match syncer.phase.sending with
  | none => s
  | some left =>
      match answer with
      | .agreed =>
          (s.register syncer.held.scheduleId syncer.held.pushed).setPhase n syncer .agreed
      | .lost reason =>
          (s.register syncer.held.scheduleId syncer.held.pushed).setPhase n syncer
            (.refused left reason)
      | .refused reason => s.setPhase n syncer (.refused left reason)

/-- Releases the fence with what the push came to, or deletes the row the
scheduler no longer holds. -/
def System.finish (s : System) (n : Nat) (syncer : Syncer) (now : Int) (found : Bool) : System :=
  match syncer.phase with
  | .agreed =>
      match s.fenced syncer with
      | none => s.setPhase n syncer .finished
      | some row =>
          if found = false then s.setPhase n syncer .finished
          else if syncer.held.desiredStatus = .deleting ∨ syncer.held.missed = true then
            (s.setRow syncer.held.scheduleId none).setPhase n syncer .finished
          else
            let registered :=
              match syncer.held.desiredStatus with
              | .active => some (upstreamId syncer.held.scheduleId)
              | _ => syncer.held.unregisteredKey
            (s.setRow syncer.held.scheduleId (some (row.finalizeSuccess registered now))).setPhase n
              syncer .finished
  | .refused _ reason =>
      match s.fenced syncer with
      | none => s.setPhase n syncer .finished
      | some row =>
          if found = false then s.setPhase n syncer .finished
          else
            (s.setRow syncer.held.scheduleId (some (row.finalizeFailure reason now))).setPhase n
              syncer .finished
  | _ => s

/-! ## Steps -/

inductive Event where
  | create (new : NewSchedule) (id token : String) (stamp : Stamp) (admitted : Bool)
  | claimChange (fleet schedule : String) (change : Change) (token : String) (stamp : Stamp)
      (found : Bool)
  | claimCurrent (fleet schedule token : String) (stamp : Stamp)
  | edit (request : EditRequest) (token : String) (stamp : Stamp) (owned : Bool)
  | setup (inherited : Inherited) (fleet id key : String) (now : Int)
  | resetup (id : String) (inherited : Option Inherited) (stamp : Stamp)
  | check (n : Nat) (attempts : Attempts)
  | push (n : Nat) (answer : Answer)
  | finish (n : Nat) (now : Int) (found : Bool)
deriving DecidableEq

section Steps

variable (valid : Recipe → Bool) (nextFire : String → String → Int → Option Int)

def System.step (s : System) : Event → System
  | .create new id token stamp admitted =>
      match s.create nextFire new id token stamp admitted with
      | none => s
      | some created => { s.take created token with minted := id :: s.minted }
  | .claimChange fleet schedule change token stamp found =>
      match s.claimChange nextFire fleet schedule change token stamp found with
      | none => s
      | some held => s.take held token
  | .claimCurrent fleet schedule token stamp =>
      match s.claimCurrent fleet schedule token stamp with
      | none => s
      | some held => s.take held token
  | .edit request token stamp owned =>
      match s.edit valid nextFire request token stamp owned with
      | .error _ => s
      | .ok held => s.take held token
  | .setup inherited fleet id key now =>
      if id ∈ s.minted then s
      else
        { s.setRow id (some (inherited.row fleet id key now)) with minted := id :: s.minted }
  | .resetup id inherited stamp =>
      match s.resetup id inherited stamp with
      | none => s
      | some row => s.setRow id (some row)
  | .check n attempts =>
      match s.syncers[n]? with
      | none => s
      | some syncer => s.check n syncer attempts
  | .push n answer =>
      match s.syncers[n]? with
      | none => s
      | some syncer => s.push n syncer answer
  | .finish n now found =>
      match s.syncers[n]? with
      | none => s
      | some syncer => s.finish n syncer now found

/-- A push is sent while the fence its reconcile checked is still the row's. -/
def Fenced (s : System) : Event → Prop
  | .push n _ =>
      match s.syncers[n]? with
      | none => True
      | some syncer => syncer.phase.sending.isSome = true → (s.fenced syncer).isSome = true
  | _ => True

instance (s : System) : ∀ event, Decidable (Fenced s event)
  | .push n _ =>
      match held : s.syncers[n]? with
      | none => .isTrue (by simp only [Fenced, held])
      | some syncer =>
          decidable_of_iff (syncer.phase.sending.isSome = true → (s.fenced syncer).isSome = true)
            (by simp only [Fenced, held])
  | .create .. | .claimChange .. | .claimCurrent .. | .edit .. | .setup .. | .resetup .. |
    .check .. | .finish .. => .isTrue trivial

end Steps

/-! ## Fences -/

theorem fenced_some {s : System} {syncer : Syncer} {row : Schedule} :
    s.fenced syncer = some row ↔
      s.rows syncer.held.scheduleId = some row ∧
        row.resourceVersion = syncer.held.resourceVersion ∧ row.syncToken = some syncer.token := by
  unfold System.fenced
  cases held : s.rows syncer.held.scheduleId with
  | none => simp
  | some found =>
      simp only
      by_cases current : found.resourceVersion = syncer.held.resourceVersion ∧
          found.syncToken = some syncer.token
      · rw [if_pos current]
        constructor
        · intro same
          rw [Option.some.injEq] at same
          subst same
          exact ⟨rfl, current⟩
        · exact fun same => same.1
      · rw [if_neg current]
        constructor
        · intro same
          exact absurd same (by simp)
        · intro same
          obtain ⟨same, current'⟩ := same
          rw [Option.some.injEq] at same
          subst same
          exact absurd current' current

def Schedule.registration (row : Schedule) : Option Registration :=
  match row.desiredStatus with
  | .active => some ⟨row.cron, row.timezone, row.message⟩
  | .paused | .deleting => none

structure Sound (s : System) : Prop where
  keys : ∀ id row, s.rows id = some row → row.scheduleId = id ∧ id ∈ s.minted
  absent : ∀ id, s.rows id = none → s.registrations (upstreamId id) = none
  synced : ∀ id row, s.rows id = some row → row.syncStatus = .synced →
    row.syncToken = none ∧ s.registrations (upstreamId id) = row.registration
  begun : ∀ syncer ∈ s.syncers, syncer.held.scheduleId ∈ s.minted ∧
    ∀ row, s.rows syncer.held.scheduleId = some row →
      syncer.held.resourceVersion ≤ row.resourceVersion
  held : ∀ syncer ∈ s.syncers, ∀ row, s.fenced syncer = some row → row = syncer.held
  agreed : ∀ syncer ∈ s.syncers, syncer.phase = .agreed → ∀ row, s.fenced syncer = some row →
    s.registrations (upstreamId syncer.held.scheduleId) = syncer.held.pushed

theorem sound_start : Sound System.start where
  keys _ _ found := absurd found (by simp [System.start])
  absent _ _ := rfl
  synced _ _ found := absurd found (by simp [System.start])
  begun _ member := absurd member List.not_mem_nil
  held _ member := absurd member List.not_mem_nil
  agreed _ member := absurd member List.not_mem_nil

theorem mem_setPhase {s : System} {n : Nat} {syncer other : Syncer} {phase : Phase}
    (member : other ∈ (s.setPhase n syncer phase).syncers) :
    other ∈ s.syncers ∨ other = { syncer with phase := phase } :=
  List.mem_or_eq_of_mem_set member

theorem sound_setPhase {s : System} (sound : Sound s) {n : Nat} {syncer : Syncer}
    (member : syncer ∈ s.syncers) {phase : Phase}
    (agrees : phase = .agreed →
      s.registrations (upstreamId syncer.held.scheduleId) = syncer.held.pushed) :
    Sound (s.setPhase n syncer phase) := by
  refine ⟨sound.keys, sound.absent, sound.synced, ?_, ?_, ?_⟩
  · intro other inside
    rcases mem_setPhase inside with old | rfl
    · exact sound.begun other old
    · exact sound.begun syncer member
  · intro other inside row fenced
    rcases mem_setPhase inside with old | rfl
    · exact sound.held other old row fenced
    · exact sound.held syncer member row fenced
  · intro other inside agreed row fenced
    rcases mem_setPhase inside with old | rfl
    · exact sound.agreed other old agreed row fenced
    · exact agrees agreed

theorem sound_register {s : System} (sound : Sound s) {syncer : Syncer}
    (member : syncer ∈ s.syncers) {row : Schedule} (fenced : s.fenced syncer = some row) :
    Sound (s.register syncer.held.scheduleId syncer.held.pushed) := by
  obtain ⟨there, version, token⟩ := fenced_some.mp fenced
  have elsewhere : ∀ id, id ≠ syncer.held.scheduleId →
      (s.register syncer.held.scheduleId syncer.held.pushed).registrations (upstreamId id) =
        s.registrations (upstreamId id) := by
    intro id apart
    exact if_neg fun same => apart (upstreamId_injective same)
  refine ⟨sound.keys, ?_, ?_, sound.begun, sound.held, ?_⟩
  · intro id missing
    have apart : id ≠ syncer.held.scheduleId := by
      intro same
      rw [same, show (s.register syncer.held.scheduleId syncer.held.pushed).rows
        syncer.held.scheduleId = some row from there] at missing
      exact absurd missing (by simp)
    rw [elsewhere id apart]
    exact sound.absent id missing
  · intro id found at_id synced
    obtain ⟨unheld, registered⟩ := sound.synced id found at_id synced
    have apart : id ≠ syncer.held.scheduleId := by
      intro same
      rw [same, show (s.register syncer.held.scheduleId syncer.held.pushed).rows
        syncer.held.scheduleId = some row from there, Option.some.injEq] at at_id
      rw [← at_id, token] at unheld
      exact absurd unheld (by simp)
    rw [elsewhere id apart]
    exact ⟨unheld, registered⟩
  · intro other inside agreed found other_fenced
    by_cases same : other.held.scheduleId = syncer.held.scheduleId
    · have equal : other.held = syncer.held := by
        have at_other := (fenced_some.mp other_fenced).1
        rw [same, show (s.register syncer.held.scheduleId syncer.held.pushed).rows
          syncer.held.scheduleId = some row from there, Option.some.injEq] at at_other
        rw [← sound.held other inside found other_fenced, ← at_other]
        exact sound.held syncer member row fenced
      rw [equal]
      exact if_pos rfl
    · rw [elsewhere _ same]
      exact sound.agreed other inside agreed found other_fenced

theorem sound_setRow {s : System} (sound : Sound s) {id : String} {row after : Schedule}
    (found : s.rows id = some row) (key : after.scheduleId = id)
    (version : row.resourceVersion ≤ after.resourceVersion)
    (free : ∀ syncer ∈ s.syncers, syncer.held.scheduleId = id →
      ¬(after.resourceVersion = syncer.held.resourceVersion ∧
        after.syncToken = some syncer.token))
    (registered : after.syncStatus = .synced → after.syncToken = none ∧
      s.registrations (upstreamId id) = after.registration) :
    Sound (s.setRow id (some after)) := by
  have here : (s.setRow id (some after)).rows id = some after := if_pos rfl
  have elsewhere : ∀ other, other ≠ id →
      (s.setRow id (some after)).rows other = s.rows other := fun other apart => if_neg apart
  have unheld : ∀ syncer ∈ s.syncers, ∀ held,
      (s.setRow id (some after)).fenced syncer = some held → s.fenced syncer = some held := by
    intro syncer member held fenced
    obtain ⟨there, current⟩ := fenced_some.mp fenced
    by_cases same : syncer.held.scheduleId = id
    · rw [same, here, Option.some.injEq] at there
      subst there
      exact absurd current (free syncer member same)
    · rw [elsewhere _ same] at there
      exact fenced_some.mpr ⟨there, current⟩
  refine ⟨?_, ?_, ?_, ?_, ?_, ?_⟩
  · intro other other_row there
    by_cases same : other = id
    · subst same
      rw [here, Option.some.injEq] at there
      subst there
      exact ⟨key, (sound.keys other row found).2⟩
    · rw [elsewhere other same] at there
      exact sound.keys other other_row there
  · intro other missing
    by_cases same : other = id
    · subst same
      rw [here] at missing
      exact absurd missing (by simp)
    · rw [elsewhere other same] at missing
      exact sound.absent other missing
  · intro other other_row there synced
    by_cases same : other = id
    · subst same
      rw [here, Option.some.injEq] at there
      subst there
      exact registered synced
    · rw [elsewhere other same] at there
      exact sound.synced other other_row there synced
  · intro syncer member
    obtain ⟨minted, below⟩ := sound.begun syncer member
    refine ⟨minted, ?_⟩
    intro other_row there
    by_cases same : syncer.held.scheduleId = id
    · rw [same, here, Option.some.injEq] at there
      subst there
      exact Nat.le_trans (below row (same ▸ found)) version
    · rw [elsewhere _ same] at there
      exact below other_row there
  · intro syncer member held fenced
    exact sound.held syncer member held (unheld syncer member held fenced)
  · intro syncer member agreed held fenced
    exact sound.agreed syncer member agreed held (unheld syncer member held fenced)

theorem sound_delete {s : System} (sound : Sound s) {id : String}
    (gone : s.registrations (upstreamId id) = none) : Sound (s.setRow id none) := by
  have read : ∀ other row, (s.setRow id none).rows other = some row → s.rows other = some row := by
    intro other row there
    by_cases same : other = id
    · rw [same, show (s.setRow id none).rows id = none from if_pos rfl] at there
      exact absurd there (by simp)
    · rwa [show (s.setRow id none).rows other = s.rows other from if_neg same] at there
  have still : ∀ syncer row, (s.setRow id none).fenced syncer = some row →
      s.fenced syncer = some row := by
    intro syncer row fenced
    obtain ⟨there, current⟩ := fenced_some.mp fenced
    exact fenced_some.mpr ⟨read _ row there, current⟩
  refine ⟨?_, ?_, ?_, ?_, ?_, ?_⟩
  · intro other row there
    exact sound.keys other row (read other row there)
  · intro other missing
    by_cases same : other = id
    · rw [same]
      exact gone
    · rw [show (s.setRow id none).rows other = s.rows other from if_neg same] at missing
      exact sound.absent other missing
  · intro other row there synced
    exact sound.synced other row (read other row there) synced
  · intro syncer member
    obtain ⟨minted, below⟩ := sound.begun syncer member
    exact ⟨minted, fun row there => below row (read _ row there)⟩
  · intro syncer member row fenced
    exact sound.held syncer member row (still syncer row fenced)
  · intro syncer member agreed row fenced
    exact sound.agreed syncer member agreed row (still syncer row fenced)

theorem sound_insert {s : System} (sound : Sound s) {row : Schedule}
    (fresh : row.scheduleId ∉ s.minted) (waiting : row.syncStatus = .syncing) :
    Sound { s.setRow row.scheduleId (some row) with minted := row.scheduleId :: s.minted } := by
  have elsewhere : ∀ other, other ≠ row.scheduleId →
      (s.setRow row.scheduleId (some row)).rows other = s.rows other :=
    fun other apart => if_neg apart
  have apart : ∀ syncer ∈ s.syncers, syncer.held.scheduleId ≠ row.scheduleId := by
    intro syncer member same
    exact fresh (same ▸ (sound.begun syncer member).1)
  have still : ∀ syncer ∈ s.syncers, ∀ held,
      System.fenced { s.setRow row.scheduleId (some row) with
        minted := row.scheduleId :: s.minted } syncer = some held →
      s.fenced syncer = some held := by
    intro syncer member held fenced
    obtain ⟨there, current⟩ := fenced_some.mp fenced
    rw [elsewhere _ (apart syncer member)] at there
    exact fenced_some.mpr ⟨there, current⟩
  refine ⟨?_, ?_, ?_, ?_, ?_, ?_⟩
  · intro other found there
    by_cases same : other = row.scheduleId
    · subst same
      rw [show (s.setRow row.scheduleId (some row)).rows row.scheduleId = some row from if_pos rfl,
        Option.some.injEq] at there
      subst there
      exact ⟨rfl, List.mem_cons_self⟩
    · rw [elsewhere other same] at there
      obtain ⟨key, minted⟩ := sound.keys other found there
      exact ⟨key, List.mem_cons_of_mem _ minted⟩
  · intro other missing
    by_cases same : other = row.scheduleId
    · subst same
      rw [show (s.setRow row.scheduleId (some row)).rows row.scheduleId = some row from
        if_pos rfl] at missing
      exact absurd missing (by simp)
    · rw [elsewhere other same] at missing
      exact sound.absent other missing
  · intro other found there synced
    by_cases same : other = row.scheduleId
    · subst same
      rw [show (s.setRow row.scheduleId (some row)).rows row.scheduleId = some row from if_pos rfl,
        Option.some.injEq] at there
      rw [← there, waiting] at synced
      exact absurd synced (by decide)
    · rw [elsewhere other same] at there
      exact sound.synced other found there synced
  · intro syncer member
    obtain ⟨minted, below⟩ := sound.begun syncer member
    refine ⟨List.mem_cons_of_mem _ minted, ?_⟩
    intro found there
    rw [elsewhere _ (apart syncer member)] at there
    exact below found there
  · intro syncer member held fenced
    exact sound.held syncer member held (still syncer member held fenced)
  · intro syncer member agreed held fenced
    exact sound.agreed syncer member agreed held (still syncer member held fenced)

theorem sound_begin {s : System} (sound : Sound s) {held : Schedule} {token : String}
    (found : s.rows held.scheduleId = some held) :
    Sound { s with syncers := s.syncers ++ [⟨held, token, .claimed⟩] } := by
  refine ⟨sound.keys, sound.absent, sound.synced, ?_, ?_, ?_⟩
  · intro syncer member
    rcases List.mem_append.mp member with old | new
    · exact sound.begun syncer old
    · rw [List.mem_singleton.mp new]
      refine ⟨(sound.keys _ held found).2, ?_⟩
      intro row there
      rw [show s.rows held.scheduleId = some row from there, Option.some.injEq] at found
      rw [found]
  · intro syncer member row fenced
    rcases List.mem_append.mp member with old | new
    · exact sound.held syncer old row fenced
    · have there := (fenced_some.mp fenced).1
      rw [List.mem_singleton.mp new] at there ⊢
      rw [show s.rows held.scheduleId = some row from there, Option.some.injEq] at found
      exact found
  · intro syncer member agreed row fenced
    rcases List.mem_append.mp member with old | new
    · exact sound.agreed syncer old agreed row fenced
    · rw [List.mem_singleton.mp new] at agreed
      exact absurd agreed (by simp)

/-! ## What a step does -/

structure Claimed (held : Schedule) (token : String) : Prop where
  token : held.syncToken = some token
  syncing : held.syncStatus = .syncing

inductive Stepped (s : System) : System → Prop
  | same : Stepped s s
  | created (held : Schedule) (token : String) (fresh : held.scheduleId ∉ s.minted)
      (claimed : Claimed held token) :
      Stepped s { s.take held token with minted := held.scheduleId :: s.minted }
  | taken (row held : Schedule) (token : String) (found : s.rows held.scheduleId = some row)
      (rises : row.resourceVersion < held.resourceVersion) (claimed : Claimed held token) :
      Stepped s (s.take held token)
  | inserted (row : Schedule) (fresh : row.scheduleId ∉ s.minted)
      (waiting : row.syncStatus = .syncing) :
      Stepped s { s.setRow row.scheduleId (some row) with minted := row.scheduleId :: s.minted }
  | released (row after : Schedule) (found : s.rows after.scheduleId = some row)
      (rises : row.resourceVersion < after.resourceVersion)
      (waiting : after.syncStatus = .syncing) :
      Stepped s (s.setRow after.scheduleId (some after))
  | moved (n : Nat) (syncer : Syncer) (phase : Phase) (begun : s.syncers[n]? = some syncer)
      (apart : phase ≠ .agreed) : Stepped s (s.setPhase n syncer phase)
  | pushed (n : Nat) (syncer : Syncer) (phase : Phase) (row : Schedule)
      (begun : s.syncers[n]? = some syncer) (fenced : s.fenced syncer = some row) :
      Stepped s ((s.register syncer.held.scheduleId syncer.held.pushed).setPhase n syncer phase)
  | deleted (n : Nat) (syncer : Syncer) (row : Schedule) (begun : s.syncers[n]? = some syncer)
      (fenced : s.fenced syncer = some row) (agreed : syncer.phase = .agreed)
      (gone : syncer.held.desiredStatus = .deleting ∨ syncer.held.missed = true) :
      Stepped s ((s.setRow syncer.held.scheduleId none).setPhase n syncer .finished)
  | synced (n : Nat) (syncer : Syncer) (row : Schedule) (registered : Option String) (now : Int)
      (begun : s.syncers[n]? = some syncer) (fenced : s.fenced syncer = some row)
      (agreed : syncer.phase = .agreed)
      (stays : ¬(syncer.held.desiredStatus = .deleting ∨ syncer.held.missed = true)) :
      Stepped s ((s.setRow syncer.held.scheduleId
        (some (row.finalizeSuccess registered now))).setPhase n syncer .finished)
  | failed (n : Nat) (syncer : Syncer) (row : Schedule) (reason : String) (now : Int)
      (begun : s.syncers[n]? = some syncer) (fenced : s.fenced syncer = some row) :
      Stepped s ((s.setRow syncer.held.scheduleId
        (some (row.finalizeFailure reason now))).setPhase n syncer .finished)

section Statements

variable {valid : Recipe → Bool} {nextFire : String → String → Int → Option Int}

theorem create_some {s : System} {new : NewSchedule} {id token : String} {stamp : Stamp}
    {admitted : Bool} {held : Schedule}
    (created : s.create nextFire new id token stamp admitted = some held) :
    held.scheduleId = id ∧ id ∉ s.minted ∧ Claimed held token := by
  unfold System.create at created
  split at created
  · exact absurd created (by simp)
  · rename_i fresh
    rw [not_or] at fresh
    rw [Option.some.injEq] at created
    subst created
    unfold NewSchedule.row
    dsimp only
    split
    · exact ⟨rfl, fresh.2, rfl, rfl⟩
    · exact ⟨rfl, fresh.2, rfl, rfl⟩

structure Claims (s : System) (held : Schedule) (token : String) : Prop where
  row : ∃ row, s.rows held.scheduleId = some row ∧
    held.resourceVersion = row.resourceVersion + 1
  claimed : Claimed held token

theorem claimChange_some {s : System} (sound : Sound s) {fleet schedule : String} {change : Change}
    {token : String} {stamp : Stamp} {found : Bool} {held : Schedule}
    (claimed : s.claimChange nextFire fleet schedule change token stamp found = some held) :
    Claims s held token := by
  unfold System.claimChange at claimed
  cases there : s.rows schedule with
  | none => simp [there] at claimed
  | some row =>
      simp only [there] at claimed
      have key := (sound.keys schedule row there).1
      split at claimed
      · exact absurd claimed (by simp)
      · split at claimed
        · rw [Option.some.injEq] at claimed
          subst claimed
          exact ⟨⟨row, key ▸ there, rfl⟩, rfl, rfl⟩
        · rw [Option.some.injEq] at claimed
          subst claimed
          exact ⟨⟨row, key ▸ there, rfl⟩, rfl, rfl⟩

theorem claimCurrent_some {s : System} (sound : Sound s) {fleet schedule token : String}
    {stamp : Stamp} {held : Schedule}
    (claimed : s.claimCurrent fleet schedule token stamp = some held) : Claims s held token := by
  unfold System.claimCurrent at claimed
  cases there : s.rows schedule with
  | none => simp [there] at claimed
  | some row =>
      simp only [there] at claimed
      have key := (sound.keys schedule row there).1
      split at claimed
      · exact absurd claimed (by simp)
      · rw [Option.some.injEq] at claimed
        subst claimed
        exact ⟨⟨row, key ▸ there, rfl⟩, rfl, rfl⟩

theorem lock_ok {s : System} {request : EditRequest} {clock : Int} {owned : Bool} {row : Schedule}
    (locked : s.lock request clock owned = .ok row) : s.rows request.schedule = some row := by
  unfold System.lock at locked
  split at locked
  · exact absurd locked (by simp)
  · cases there : s.rows request.schedule with
    | none => simp [there] at locked
    | some found =>
        simp only [there] at locked
        split at locked
        · exact absurd locked (by simp)
        · cases tagged : checkTag found request.expected with
          | error refusal => simp [tagged] at locked
          | ok =>
              simp only [tagged] at locked
              cases free : available found clock with
              | error refusal => simp [free] at locked
              | ok =>
                  simp only [free, Except.ok.injEq] at locked
                  rw [locked]

theorem edit_ok {s : System} (sound : Sound s) {request : EditRequest} {token : String}
    {stamp : Stamp} {owned : Bool} {held : Schedule}
    (edited : s.edit valid nextFire request token stamp owned = .ok held) :
    Claims s held token := by
  unfold System.edit at edited
  cases locked : s.lock request stamp.clock owned with
  | error refusal => simp [locked] at edited
  | ok row =>
      simp only [locked] at edited
      have there := lock_ok locked
      have key := (sound.keys request.schedule row there).1
      cases made : replacement valid row request.patch with
      | error refusal => simp [made] at edited
      | ok answer =>
          obtain ⟨effective, inherited⟩ := answer
          simp only [made, Except.ok.injEq] at edited
          subst edited
          split
          · exact ⟨⟨row, key ▸ there, rfl⟩, rfl, rfl⟩
          · exact ⟨⟨row, key ▸ there, rfl⟩, rfl, rfl⟩

theorem resetup_some {s : System} (sound : Sound s) {id : String} {inherited : Option Inherited}
    {stamp : Stamp} {after : Schedule} (written : s.resetup id inherited stamp = some after) :
    after.scheduleId = id ∧ after.syncStatus = .syncing ∧
      ∃ row, s.rows id = some row ∧ after.resourceVersion = row.resourceVersion + 1 := by
  unfold System.resetup at written
  cases there : s.rows id with
  | none => simp [there] at written
  | some row =>
      simp only [there] at written
      have key := (sound.keys id row there).1
      split at written
      · exact absurd written (by simp)
      · cases inherited with
        | none =>
            simp only [Option.some.injEq] at written
            subst written
            exact ⟨key, rfl, row, rfl, rfl⟩
        | some inherited =>
            simp only [Option.some.injEq] at written
            subst written
            exact ⟨key, rfl, row, rfl, rfl⟩

theorem stepped_taken {s : System} {held : Schedule} {token : String}
    (claims : Claims s held token) :
    Stepped s (s.take held token) := by
  obtain ⟨row, found, version⟩ := claims.row
  exact .taken row held token found (by omega) claims.claimed

theorem stepped_check {s : System} {n : Nat} {syncer : Syncer} (attempts : Attempts)
    (begun : s.syncers[n]? = some syncer) : Stepped s (s.check n syncer attempts) := by
  unfold System.check
  cases syncer.phase with
  | claimed =>
      simp only
      cases s.fenced syncer with
      | none => exact .moved n syncer .finished begun (by simp)
      | some row => exact .moved n syncer _ begun (by simp)
  | checked left => exact .same
  | agreed => exact .same
  | refused left reason => exact .same
  | finished => exact .same

theorem stepped_push {s : System} {n : Nat} {syncer : Syncer} (answer : Answer)
    (begun : s.syncers[n]? = some syncer)
    (fenced : syncer.phase.sending.isSome = true → (s.fenced syncer).isSome = true) :
    Stepped s (s.push n syncer answer) := by
  unfold System.push
  cases sending : syncer.phase.sending with
  | none => exact .same
  | some left =>
      obtain ⟨row, held⟩ := Option.isSome_iff_exists.mp (fenced (by rw [sending]; rfl))
      cases answer with
      | agreed => exact .pushed n syncer _ row begun held
      | lost reason => exact .pushed n syncer _ row begun held
      | refused reason => exact .moved n syncer _ begun (by simp)

theorem stepped_finish {s : System} {n : Nat} {syncer : Syncer} (now : Int) (found : Bool)
    (begun : s.syncers[n]? = some syncer) : Stepped s (s.finish n syncer now found) := by
  have dropped : Stepped s (s.setPhase n syncer .finished) :=
    .moved n syncer .finished begun (by simp)
  unfold System.finish
  cases phase : syncer.phase with
  | agreed =>
      simp only
      cases fenced : s.fenced syncer with
      | none => exact dropped
      | some row =>
          simp only
          split
          · exact dropped
          · split
            · rename_i gone
              exact .deleted n syncer row begun fenced phase gone
            · rename_i stays
              exact .synced n syncer row _ now begun fenced phase stays
  | refused left reason =>
      simp only
      cases fenced : s.fenced syncer with
      | none => exact dropped
      | some row =>
          simp only
          split
          · exact dropped
          · exact .failed n syncer row reason now begun fenced
  | claimed => exact .same
  | checked left => exact .same
  | finished => exact .same

theorem stepped {s : System} (sound : Sound s) {event : Event} (fenced : Fenced s event) :
    Stepped s (s.step valid nextFire event) := by
  cases event with
  | create new id token stamp admitted =>
      simp only [System.step]
      cases created : s.create nextFire new id token stamp admitted with
      | none => exact .same
      | some held =>
          obtain ⟨rfl, fresh, claimed⟩ := create_some created
          exact .created held token fresh claimed
  | claimChange fleet schedule change token stamp found =>
      simp only [System.step]
      cases claimed : s.claimChange nextFire fleet schedule change token stamp found with
      | none => exact .same
      | some held => exact stepped_taken (claimChange_some sound claimed)
  | claimCurrent fleet schedule token stamp =>
      simp only [System.step]
      cases claimed : s.claimCurrent fleet schedule token stamp with
      | none => exact .same
      | some held => exact stepped_taken (claimCurrent_some sound claimed)
  | edit request token stamp owned =>
      simp only [System.step]
      cases edited : s.edit valid nextFire request token stamp owned with
      | error refusal => exact .same
      | ok held => exact stepped_taken (edit_ok sound edited)
  | setup inherited fleet id key now =>
      simp only [System.step]
      by_cases fresh : id ∈ s.minted
      · rw [if_pos fresh]
        exact .same
      · rw [if_neg fresh]
        exact .inserted (inherited.row fleet id key now) fresh rfl
  | resetup id inherited stamp =>
      simp only [System.step]
      cases written : s.resetup id inherited stamp with
      | none => exact .same
      | some after =>
          obtain ⟨rfl, waiting, row, found, version⟩ := resetup_some sound written
          exact .released row after found (by omega) waiting
  | check n attempts =>
      simp only [System.step]
      cases begun : s.syncers[n]? with
      | none => exact .same
      | some syncer => exact stepped_check attempts begun
  | push n answer =>
      simp only [System.step]
      cases begun : s.syncers[n]? with
      | none => exact .same
      | some syncer =>
          simp only [Fenced, begun] at fenced
          exact stepped_push answer begun fenced
  | finish n now found =>
      simp only [System.step]
      cases begun : s.syncers[n]? with
      | none => exact .same
      | some syncer => exact stepped_finish now found begun

end Statements

theorem sound_finalize {s : System} (sound : Sound s) {n : Nat} {syncer : Syncer}
    {row after : Schedule} (begun : s.syncers[n]? = some syncer)
    (fenced : s.fenced syncer = some row) (key : after.scheduleId = row.scheduleId)
    (version : after.resourceVersion = row.resourceVersion) (free : after.syncToken = none)
    (registered : after.syncStatus = .synced →
      s.registrations (upstreamId syncer.held.scheduleId) = after.registration) :
    Sound ((s.setRow syncer.held.scheduleId (some after)).setPhase n syncer .finished) := by
  have there := (fenced_some.mp fenced).1
  have written : Sound (s.setRow syncer.held.scheduleId (some after)) := by
    refine sound_setRow sound there (key.trans (sound.keys _ row there).1) (by omega) ?_ ?_
    · intro other _ _ current
      rw [free] at current
      exact absurd current.2 (by simp)
    · exact fun synced => ⟨free, registered synced⟩
  exact sound_setPhase written (List.mem_of_getElem? begun) (by simp)

theorem sound_step {s next : System} (step : Stepped s next) (sound : Sound s) : Sound next := by
  cases step with
  | same => exact sound
  | created held token fresh claimed =>
      exact sound_begin (sound_insert sound fresh claimed.syncing)
        (show (s.setRow held.scheduleId (some held)).rows held.scheduleId = some held
          from if_pos rfl)
  | taken row held token found rises claimed =>
      have written : Sound (s.setRow held.scheduleId (some held)) := by
        refine sound_setRow sound found rfl (Nat.le_of_lt rises) ?_ ?_
        · intro syncer member same current
          -- Every syncer's version is at most the row's, and the claim raised it.
          have below := (sound.begun syncer member).2 row (same ▸ found)
          omega
        · intro synced
          rw [claimed.syncing] at synced
          exact absurd synced (by decide)
      exact sound_begin written
        (show (s.setRow held.scheduleId (some held)).rows held.scheduleId = some held
          from if_pos rfl)
  | inserted row fresh waiting => exact sound_insert sound fresh waiting
  | released row after found rises waiting =>
      refine sound_setRow sound found rfl (Nat.le_of_lt rises) ?_ ?_
      · intro syncer member same current
        have below := (sound.begun syncer member).2 row (same ▸ found)
        omega
      · intro synced
        rw [waiting] at synced
        exact absurd synced (by decide)
  | moved n syncer phase begun apart =>
      exact sound_setPhase sound (List.mem_of_getElem? begun) fun agreed => absurd agreed apart
  | pushed n syncer phase row begun fenced =>
      have member := List.mem_of_getElem? begun
      exact sound_setPhase (sound_register sound member fenced) member fun _ => if_pos rfl
  | deleted n syncer row begun fenced agreed gone =>
      have member := List.mem_of_getElem? begun
      have absent : s.registrations (upstreamId syncer.held.scheduleId) = none := by
        rw [sound.agreed syncer member agreed row fenced]
        exact pushed_gone gone
      exact sound_setPhase (sound_delete sound absent) member (by simp)
  | synced n syncer row registered now begun fenced agreed stays =>
      have member := List.mem_of_getElem? begun
      refine sound_finalize sound begun fenced rfl rfl rfl ?_
      intro _
      rw [not_or, Bool.not_eq_true] at stays
      rw [sound.agreed syncer member agreed row fenced]
      have same := sound.held syncer member row fenced
      cases desired : syncer.held.desiredStatus with
      | active =>
          rw [pushed_active desired stays.2]
          simp only [Schedule.registration, Schedule.finalizeSuccess, same, desired]
      | paused =>
          rw [pushed_paused desired]
          simp only [Schedule.registration, Schedule.finalizeSuccess, same, desired]
      | deleting => exact absurd desired stays.1
  | failed n syncer row reason now begun fenced =>
      refine sound_finalize sound begun fenced rfl rfl rfl ?_
      intro synced
      exact absurd synced (by simp [Schedule.finalizeFailure])

/-! ## Versions -/

inductive Follows (row after : Schedule) : Prop
  | same (equal : after = row)
  | later (rises : row.resourceVersion < after.resourceVersion)
  | released (version : after.resourceVersion = row.resourceVersion) (free : after.syncToken = none)
      (intent : after.cron = row.cron ∧ after.timezone = row.timezone ∧
        after.message = row.message ∧ after.desiredStatus = row.desiredStatus)

theorem follows_setRow {s : System} {key : String} {old new : Schedule}
    (found : s.rows key = some old) (follows : Follows old new) {id : String}
    {row after : Schedule} (before : s.rows id = some row)
    (then_row : (s.setRow key (some new)).rows id = some after) : Follows row after := by
  by_cases same : id = key
  · subst same
    rw [show (s.setRow id (some new)).rows id = some new from if_pos rfl,
      Option.some.injEq] at then_row
    rw [found, Option.some.injEq] at before
    rw [← then_row, ← before]
    exact follows
  · rw [show (s.setRow key (some new)).rows id = s.rows id from if_neg same, before,
      Option.some.injEq] at then_row
    exact .same then_row.symm

theorem follows_insert {s : System} (sound : Sound s) {new : Schedule}
    (fresh : new.scheduleId ∉ s.minted) {id : String} {row after : Schedule}
    (before : s.rows id = some row)
    (then_row : (s.setRow new.scheduleId (some new)).rows id = some after) : Follows row after := by
  have apart : id ≠ new.scheduleId := by
    intro same
    exact fresh (same ▸ (sound.keys id row before).2)
  rw [show (s.setRow new.scheduleId (some new)).rows id = s.rows id from if_neg apart, before,
    Option.some.injEq] at then_row
  exact .same then_row.symm

theorem follows_step {s next : System} (step : Stepped s next) (sound : Sound s) {id : String}
    {row after : Schedule} (before : s.rows id = some row) (then_row : next.rows id = some after) :
    Follows row after := by
  have unmoved {other : System} (same : other.rows = s.rows) (there : other.rows id = some after) :
      Follows row after := by
    rw [same, before, Option.some.injEq] at there
    exact .same there.symm
  cases step with
  | same => exact unmoved rfl then_row
  | created held token fresh claimed => exact follows_insert sound fresh before then_row
  | taken old held token found rises claimed =>
      exact follows_setRow found (.later rises) before then_row
  | inserted new fresh waiting => exact follows_insert sound fresh before then_row
  | released old new found rises waiting =>
      exact follows_setRow found (.later rises) before then_row
  | moved n syncer phase begun apart => exact unmoved rfl then_row
  | pushed n syncer phase held begun fenced => exact unmoved rfl then_row
  | deleted n syncer held begun fenced agreed gone =>
      have there : (s.setRow syncer.held.scheduleId none).rows id = some after := then_row
      by_cases same : id = syncer.held.scheduleId
      · rw [same, show (s.setRow syncer.held.scheduleId none).rows syncer.held.scheduleId = none
          from if_pos rfl] at there
        exact absurd there (by simp)
      · rw [show (s.setRow syncer.held.scheduleId none).rows id = s.rows id from if_neg same,
          before, Option.some.injEq] at there
        exact .same there.symm
  | synced n syncer old registered now begun fenced agreed stays =>
      have follows : Follows old (old.finalizeSuccess registered now) :=
        .released rfl rfl ⟨rfl, rfl, rfl, rfl⟩
      exact follows_setRow (fenced_some.mp fenced).1 follows before then_row
  | failed n syncer old reason now begun fenced =>
      have follows : Follows old (old.finalizeFailure reason now) :=
        .released rfl rfl ⟨rfl, rfl, rfl, rfl⟩
      exact follows_setRow (fenced_some.mp fenced).1 follows before then_row

def Syncer.fence (syncer : Syncer) : String × Nat × String :=
  (syncer.held.scheduleId, syncer.held.resourceVersion, syncer.token)

def Gives (s next : System) : Prop :=
  ∃ given, next.syncers.map Syncer.fence = s.syncers.map Syncer.fence ++ given ∧
    ∀ fence ∈ given, ∀ row, s.rows fence.1 = some row → row.resourceVersion < fence.2.1

theorem gives_none {s next : System}
    (same : next.syncers.map Syncer.fence = s.syncers.map Syncer.fence) : Gives s next :=
  ⟨[], by rw [same, List.append_nil], fun _ member => absurd member List.not_mem_nil⟩

theorem fences_set {syncers : List Syncer} {n : Nat} {syncer : Syncer}
    (begun : syncers[n]? = some syncer) (phase : Phase) :
    (syncers.set n { syncer with phase := phase }).map Syncer.fence = syncers.map Syncer.fence := by
  induction syncers generalizing n with
  | nil => rfl
  | cons first rest ih =>
      cases n with
      | zero =>
          rw [List.getElem?_cons_zero, Option.some.injEq] at begun
          subst begun
          rfl
      | succ n =>
          rw [List.getElem?_cons_succ] at begun
          rw [List.set_cons_succ, List.map_cons, List.map_cons, ih begun]

theorem gives_step {s next : System} (step : Stepped s next) (sound : Sound s) : Gives s next := by
  cases step with
  | same => exact gives_none rfl
  | created held token fresh claimed =>
      refine ⟨[⟨held, token, .claimed⟩].map Syncer.fence, List.map_append, ?_⟩
      intro fence member row there
      rw [List.map_singleton, List.mem_singleton] at member
      subst member
      exact absurd (sound.keys held.scheduleId row there).2 fresh
  | taken row held token found rises claimed =>
      refine ⟨[⟨held, token, .claimed⟩].map Syncer.fence, List.map_append, ?_⟩
      intro fence member old there
      rw [List.map_singleton, List.mem_singleton] at member
      subst member
      rw [show s.rows held.scheduleId = some old from there, Option.some.injEq] at found
      rw [found]
      exact rises
  | inserted row fresh waiting => exact gives_none rfl
  | released row after found rises waiting => exact gives_none rfl
  | moved n syncer phase begun apart => exact gives_none (fences_set begun phase)
  | pushed n syncer phase row begun fenced => exact gives_none (fences_set begun phase)
  | deleted n syncer row begun fenced agreed gone => exact gives_none (fences_set begun .finished)
  | synced n syncer row registered now begun fenced agreed stays =>
      exact gives_none (fences_set begun .finished)
  | failed n syncer row reason now begun fenced => exact gives_none (fences_set begun .finished)

theorem finish_superseded {s : System} {n : Nat} {syncer : Syncer} {now : Int} {found : Bool}
    (overtaken : s.fenced syncer = none) :
    (s.finish n syncer now found).rows = s.rows ∧
      (s.finish n syncer now found).registrations = s.registrations := by
  unfold System.finish
  cases syncer.phase with
  | agreed =>
      simp only [overtaken]
      exact ⟨rfl, rfl⟩
  | refused left reason =>
      simp only [overtaken]
      exact ⟨rfl, rfl⟩
  | claimed => exact ⟨rfl, rfl⟩
  | checked left => exact ⟨rfl, rfl⟩
  | finished => exact ⟨rfl, rfl⟩

/-! ## Rows and scheduler in step -/

structure InStep (valid : Recipe → Bool) (nextFire : String → String → Int → Option Int)
    (s : System) : Prop where
  active : ∀ id row, s.rows id = some row → row.syncStatus = .synced →
    row.desiredStatus = .active →
      s.registrations (upstreamId id) = some ⟨row.cron, row.timezone, row.message⟩
  paused : ∀ id row, s.rows id = some row → row.syncStatus = .synced →
    row.desiredStatus = .paused → s.registrations (upstreamId id) = none
  deleted : ∀ id ∈ s.minted, s.rows id = none → s.registrations (upstreamId id) = none
  follows : ∀ event, Fenced s event → ∀ id row after, s.rows id = some row →
    (s.step valid nextFire event).rows id = some after → Follows row after
  gives : ∀ event, Fenced s event → Gives s (s.step valid nextFire event)
  superseded : ∀ n syncer now found, s.syncers[n]? = some syncer → s.fenced syncer = none →
    (s.step valid nextFire (.finish n now found)).rows = s.rows ∧
      (s.step valid nextFire (.finish n now found)).registrations = s.registrations

/-- In every interleaving of claims, edits, pushes and outcomes, with each push
sent under the fence its reconcile checked. -/
theorem schedules_in_step (valid : Recipe → Bool)
    (nextFire : String → String → Int → Option Int) (events : List Event)
    (fenced : Run.Meets (System.step valid nextFire) Fenced System.start events) :
    ∀ reached ∈ Run.states (System.step valid nextFire) System.start events,
      InStep valid nextFire reached := by
  intro reached member
  have sound : Sound reached :=
    Run.invariant_of_meets (fun s event held met => sound_step (stepped held met) held)
      sound_start fenced reached member
  refine ⟨?_, ?_, ?_, ?_, ?_, ?_⟩
  · intro id row there synced active
    rw [(sound.synced id row there synced).2, Schedule.registration, active]
  · intro id row there synced paused
    rw [(sound.synced id row there synced).2, Schedule.registration, paused]
  · intro id _ missing
    exact sound.absent id missing
  · intro event met id row after before then_row
    exact follows_step (stepped sound met) sound before then_row
  · intro event met
    exact gives_step (stepped sound met) sound
  · intro n syncer now found begun overtaken
    simp only [System.step, begun]
    exact finish_superseded overtaken

def overtakenRun : List Event :=
  [.create ⟨"fleet", none, "0 9 * * *", "UTC", "report", false⟩ "one" "first" ⟨0, 0⟩ true,
    .check 0 .retried, .push 0 (.lost "unavailable"),
    .claimChange "fleet" "one" ⟨none, none, none, some .paused⟩ "second" ⟨40000000, 40000000⟩ true,
    .finish 0 40000001 true, .check 1 .retried, .push 1 .agreed, .finish 1 40000002 true,
    .claimChange "fleet" "one" ⟨none, none, none, some .deleting⟩ "third" ⟨50000000, 50000000⟩
      true,
    .check 2 .retried, .push 2 .agreed, .finish 2 50000001 true]

theorem schedules_in_step_overtaken :
    Run.Meets (System.step (fun _ => true) fun _ _ _ => none) Fenced System.start overtakenRun ∧
      (Run.final (System.step (fun _ => true) fun _ _ _ => none) System.start overtakenRun).minted =
        ["one"] ∧
      InStep (fun _ => true) (fun _ _ _ => none)
        (Run.final (System.step (fun _ => true) fun _ _ _ => none) System.start overtakenRun) := by
  have met : Run.Meets (System.step (fun _ => true) fun _ _ _ => none) Fenced System.start
      overtakenRun := by
    decide +kernel
  refine ⟨met, by decide +kernel, ?_⟩
  exact schedules_in_step _ _ overtakenRun met _ (Run.final_mem_states _ _ overtakenRun)

end Agentsfleet.Cron
