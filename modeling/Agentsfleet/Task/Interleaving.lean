import Agentsfleet.Task.Transactions

/-!
# The fence over any run

The transactions of the daemons in any order, with everything read before one kept as it
was read: a prepared wake, an adoption's origin, a prepared report and a claim each stand
for as long as they are not used, while the tables move on.
-/

set_option autoImplicit false

namespace Agentsfleet.Task.Lifecycle

open Agentsfleet.Core
open Agentsfleet.Library
open Agentsfleet.Library.Run
open Agentsfleet.Library.Table (Grows)
open Agentsfleet.Waits (Claimed Snapshot Store TaskRow Visit Wait WaitRow)

/-! ## What was read before a transaction -/

structure Continuation.Of (c : Continuation) (row : TaskRow) : Prop where
  fleet : c.fleet = row.fleet
  workspace : c.workspace = row.workspace
  task : c.task = row.id
  reached : (c.generation : Int) ≤ row.generation + 1

section Moved

variable {may : Prop} {woke : String → Int → Prop} {old new : TaskRow}
  (moves : Moves may woke old new)

include moves

theorem Continuation.Of.moved {c : Continuation} (of : c.Of old) : c.Of new := by
  refine ⟨of.fleet.trans moves.fleet.symm, of.workspace.trans moves.workspace.symm,
    of.task.trans moves.id.symm, ?_⟩
  have reached := of.reached
  have older := moves.older
  omega

theorem Origin.Of.moved {origin : Origin} (of : origin.Of old) : origin.Of new := by
  have older := of.older
  have later := moves.older
  refine ⟨⟨moves.id.trans of.here.1, moves.fleet.trans of.here.2.1,
    moves.workspace.trans of.here.2.2⟩, by omega, fun current => ?_⟩
  have still := of.state (by omega)
  rcases moves.fenced with same | passed | ⟨-, ready, running⟩
  · rw [same]
    exact still
  · omega
  · rcases still with before | ⟨-, before⟩
    · exact .inr ⟨before.symm.trans ready, running⟩
    · rw [before] at ready
      cases ready

theorem PreparedReport.Of.moved {plan : PreparedReport} (of : plan.Of old) : plan.Of new :=
  ⟨⟨moves.fleet.trans of.here.1, moves.workspace.trans of.here.2⟩, of.wake⟩

end Moved

structure Daemon.Sound (s : Daemon) : Prop where
  tables : s.tables.Sound
  wakes : ∀ c ∈ s.wakes, ∃ row ∈ s.tables.store.tasks, c.Of row
  origins : ∀ origin ∈ s.origins, ∃ row ∈ s.tables.store.tasks, origin.Of row
  reports : ∀ plan ∈ s.reports, ∃ row ∈ s.tables.store.tasks, row.id = plan.row.id ∧ plan.Of row
  claimed : ∀ held ∈ s.claimed, Held s.tables.store.waits held

theorem Continuation.Of.next {c : Continuation} {row : TaskRow} (of : c.Of row)
    (generation : (c.generation : Int) = row.generation + 1) : c.Next row :=
  ⟨of.fleet, of.workspace, of.task, generation⟩

theorem Daemon.Sound.here {s : Daemon} (sound : s.Sound) {P : TaskRow → Prop}
    (refers : ∃ row ∈ s.tables.store.tasks, P row) {fleet workspace task : String} {row : TaskRow}
    (same : ∀ row, P row → row.id = task)
    (found : s.tables.find fleet workspace task = some row) : P row := by
  obtain ⟨other, member, holds⟩ := refers
  have spec := Tables.find_spec found
  have equal : other = row := List.inj_on_of_nodup_map sound.tables.tasks member spec.1
    ((same other holds).trans spec.2.1.symm)
  exact equal ▸ holds

structure Daemon.Reads (s after : Daemon) : Prop where
  wakes : ∀ c ∈ after.wakes, c ∈ s.wakes ∨ ∃ row ∈ s.tables.store.tasks, c.Of row
  origins : ∀ origin ∈ after.origins,
    origin ∈ s.origins ∨ ∃ row ∈ s.tables.store.tasks, origin.Of row
  reports : ∀ plan ∈ after.reports,
    plan ∈ s.reports ∨ ∃ row ∈ s.tables.store.tasks, row.id = plan.row.id ∧ plan.Of row
  claimed : ∀ held ∈ after.claimed, held ∈ s.claimed ∨ held.owner.row ∈ s.tables.store.waits

theorem Daemon.Reads.refl (s : Daemon) (tables : Tables) : s.Reads { s with tables := tables } :=
  ⟨fun _ => .inl, fun _ => .inl, fun _ => .inl, fun _ => .inl⟩

theorem Daemon.commit_reads (s : Daemon) (result : Except Fault Tables) :
    s.Reads (s.commit result) := by
  cases result with
  | error fault => exact Reads.refl s s.tables
  | ok tables => exact Reads.refl s tables

theorem Daemon.Sound.step {may : Prop} {woke : String → Int → Prop} {s after : Daemon}
    (sound : s.Sound) (leaves : Leaves may woke s.tables after.tables) (reads : s.Reads after) :
    after.Sound := by
  have kept (P : TaskRow → Prop) (moved : ∀ old new, Moves may woke old new → P old → P new)
      (before : ∃ row ∈ s.tables.store.tasks, P row) :
      ∃ row ∈ after.tables.store.tasks, P row := by
    obtain ⟨old, member, holds⟩ := before
    obtain ⟨new, inside, moves⟩ := leaves.tasks.forward member
    exact ⟨new, inside, moved old new moves holds⟩
  refine ⟨leaves.sound sound.tables, fun c member => ?_, fun origin member => ?_,
    fun plan member => ?_, fun held member => ?_⟩
  · exact kept _ (fun _ _ moves of => of.moved moves)
      ((reads.wakes c member).elim (sound.wakes c) id)
  · exact kept _ (fun _ _ moves of => of.moved moves)
      ((reads.origins origin member).elim (sound.origins origin) id)
  · exact kept _ (fun _ _ moves of => ⟨moves.id.trans of.1, of.2.moved moves⟩)
      ((reads.reports plan member).elim (sound.reports plan) id)
  · have before : Held s.tables.store.waits held :=
      (reads.claimed held member).elim (sound.claimed held) fun row => ⟨_, row, Same.refl _⟩
    obtain ⟨row, inside, same⟩ := before
    obtain ⟨new, there_, again⟩ := leaves.waits.forward inside
    exact ⟨new, there_, same.trans again⟩

theorem resumeWake_of {t : Tables} {fleet workspace task : String} {c : Continuation}
    (prepared : t.resumeWake fleet workspace task = some c) :
    ∃ row ∈ t.store.tasks, c.Of row := by
  obtain ⟨row, found, wake⟩ := Option.bind_eq_some_iff.mp prepared
  have spec := Tables.find_spec found
  have next := after_next wake spec.2
  exact ⟨row, spec.1, next.fleet, next.workspace, next.task, Int.le_of_eq next.generation⟩

theorem inputWake_of {t : Tables} {fleet workspace task : String} {c : Continuation}
    (prepared : t.inputWake fleet workspace task = some c) :
    ∃ row ∈ t.store.tasks, c.Of row := by
  obtain ⟨row, found, wake⟩ := Option.bind_eq_some_iff.mp prepared
  split at wake
  · cases wake
  · have spec := Tables.find_spec found
    have next := after_next wake spec.2
    exact ⟨row, spec.1, next.fleet, next.workspace, next.task, Int.le_of_eq next.generation⟩

theorem origin_of {t : Tables} {fleet workspace task operation revision : String}
    {origin : Origin} (read : t.origin fleet workspace task operation revision = some origin) :
    ∃ row ∈ t.store.tasks, origin.Of row := by
  obtain ⟨row, found, rfl⟩ := Option.map_eq_some_iff.mp read
  have spec := Tables.find_spec found
  exact ⟨row, spec.1, spec.2, Int.le_refl _, fun _ => .inl rfl⟩

theorem prepareReport_of {t : Tables} {lease : String} {input : TaskReport}
    {target : Option Target} {dependency : Option Snapshot} {held : Bool} {clock : Int}
    {plan : PreparedReport}
    (prepared : t.prepareReport lease input target dependency held clock = some plan) :
    ∃ row ∈ t.store.tasks, row.id = plan.row.id ∧ plan.Of row := by
  unfold Tables.prepareReport at prepared
  split at prepared
  · cases prepared
  · split at prepared
    · cases prepared
    · split at prepared
      · cases prepared
      · rename_i row found
        have member := (Tables.find_spec found).1
        dsimp only at prepared
        split at prepared
        · cases prepared
        · generalize (if (input.disposition = .waiting ∨ input.disposition = .complete) ∧
            target.isSome = true then dependency else none) = evidence at prepared
          split at prepared
          · obtain ⟨c, wake, rfl⟩ := Option.map_eq_some_iff.mp prepared
            exact ⟨row, member, rfl, ⟨rfl, rfl⟩, fun other same => Option.some.inj same ▸ wake⟩
          · cases prepared
            exact ⟨row, member, rfl, ⟨rfl, rfl⟩, nofun⟩

/-! ## A step -/

def Event.Issues : Event → Prop
  | .issue .. => True
  | _ => False

/-- The wake a resumption brings, or the origin of an adoption, was read at the generation
its task is still at.  Every other transaction checks that itself. -/
def Event.Current (s : Daemon) : Event → Prop
  | .control request .resume wake _ _ _ => ∀ c row, s.wakes[wake]? = some c →
      s.tables.find request.fleet request.workspace request.task = some row →
        (c.generation : Int) = row.generation + 1
  | .adopt origin _ _ _ _ _ _ _ => ∀ held row, s.origins[origin]? = some held →
      s.tables.find held.fleet held.workspace held.task = some row →
        held.generation = row.generation
  | _ => True

section Step

variable (digest : Snapshot → String) (etag : Tables → TaskRow → String)
  (adoptionDigest : String → String → Nat → String)

theorem step_reads (s : Daemon) (event : Event) :
    s.Reads (s.step digest etag adoptionDigest event) := by
  have here (P : Continuation → Prop) (c : Continuation) (read : Option Continuation)
      (fine : ∀ c, read = some c → P c) (member : c ∈ s.wakes ++ read.toList) :
      c ∈ s.wakes ∨ P c :=
    (List.mem_append.mp member).imp_right fun later => fine c (Option.mem_toList.mp later)
  unfold Daemon.step
  cases event with
  | message id fleet workspace =>
      dsimp only
      split
      · exact Daemon.Reads.refl s s.tables
      · exact Daemon.Reads.refl s _
  | create new lease id capacity charged clock => exact s.commit_reads _
  | issue lease admission fleet host revision leasedUntil clock =>
      dsimp only
      split
      · exact Daemon.Reads.refl s s.tables
      · exact Daemon.Reads.refl s _
  | meter lease meteredAt expiresAt nanos clock => exact Daemon.Reads.refl s _
  | prepareResume fleet workspace task =>
      exact ⟨fun c => here _ c _ fun _ => resumeWake_of, fun _ => .inl, fun _ => .inl,
        fun _ => .inl⟩
  | control request control wake id capacity clock =>
      dsimp only
      split
      · split
        · exact Daemon.Reads.refl s s.tables
        · split
          · exact s.commit_reads _
          · exact Daemon.Reads.refl s s.tables
      · exact s.commit_reads _
  | readOrigin fleet workspace task operation revision =>
      refine ⟨fun _ => .inl, fun origin member => ?_, fun _ => .inl, fun _ => .inl⟩
      exact (List.mem_append.mp member).imp_right fun later =>
        origin_of (Option.mem_toList.mp later)
  | adopt origin expectedTag expectedGeneration reviewed goalDigest id capacity clock =>
      dsimp only
      split
      · exact Daemon.Reads.refl s s.tables
      · exact s.commit_reads _
  | prepareInput fleet workspace task =>
      exact ⟨fun c => here _ c _ fun _ => inputWake_of, fun _ => .inl, fun _ => .inl, fun _ => .inl⟩
  | input fleet workspace task opens wake id capacity clock =>
      cases wake with
      | none => exact s.commit_reads _
      | some place =>
          dsimp only
          split
          · exact Daemon.Reads.refl s s.tables
          · split
            · exact s.commit_reads _
            · exact Daemon.Reads.refl s s.tables
  | prepareReport lease input target dependency held clock =>
      refine ⟨fun _ => .inl, fun _ => .inl, fun plan member => ?_, fun _ => .inl⟩
      exact (List.mem_append.mp member).imp_right fun later =>
        prepareReport_of (Option.mem_toList.mp later)
  | report lease measured plan live id wait capacity clock => exact s.commit_reads _
  | claim candidate id visit =>
      dsimp only
      split
      · exact Daemon.Reads.refl s s.tables
      · rename_i tables claimed claims
        refine ⟨fun _ => .inl, fun _ => .inl, fun _ => .inl, fun held member => ?_⟩
        refine (List.mem_append.mp member).imp_right fun later => ?_
        exact claim_reads claims held (Option.mem_toList.mp later)
  | finish claimed result visit id capacity =>
      dsimp only
      split
      · exact Daemon.Reads.refl s s.tables
      · exact s.commit_reads _
  | signal event => exact Daemon.Reads.refl s _
  | expire fleet workspace task clock => exact Daemon.Reads.refl s _
  | blockChanged admission fleet workspace clock => exact Daemon.Reads.refl s _
  | spend task usedModelNanos reservedModelNanos resourceVersion => exact Daemon.Reads.refl s _
  | goal task goal => exact Daemon.Reads.refl s _

/-- What a step leaves: only an issue starts a task as it is, and a task ready anew has been
woken by the step. -/
abbrev Daemon.Keeps (s : Daemon) (event : Event) (after : Daemon) : Prop :=
  Leaves event.Issues (fun task generation => event.Current s → after.tables.Woken task generation)
    s.tables after.tables

theorem commit_keeps {s : Daemon} {event : Event} {result : Except Fault Tables}
    (leaves : ∀ after, result = .ok after →
      Leaves event.Issues (fun task generation => event.Current s → after.Woken task generation)
        s.tables after) : s.Keeps event (s.commit result) := by
  cases result with
  | error fault => exact Leaves.refl s.tables
  | ok after => exact leaves after rfl

theorem map_ok {Fault Value Result : Type} {read : Value → Result} {result : Except Fault Value}
    {after : Result} (mapped : result.map read = .ok after) :
    ∃ value, result = .ok value ∧ read value = after := by
  cases result with
  | error fault => cases mapped
  | ok value => exact ⟨value, rfl, Except.ok.inj mapped⟩

theorem step_keeps {s : Daemon} (sound : s.Sound) (event : Event) :
    s.Keeps event (s.step digest etag adoptionDigest event) := by
  have tables := sound.tables
  cases event with
  | message id fleet workspace =>
      unfold Daemon.step
      dsimp only
      split
      · exact Leaves.refl s.tables
      · refine ⟨Grows.refl Moves.refl, Grows.refl Same.refl, fun stamped row member => ?_,
          fun leased lease member => ?_⟩
        · rcases List.mem_append.mp member with earlier | later
          · exact stamped row earlier
          · rw [List.mem_singleton.mp later]
            exact ⟨nofun, nofun⟩
        · rw [List.map_append]
          exact List.mem_append_left _ (leased lease member)
  | create new lease id capacity charged clock =>
      exact commit_keeps fun after creates => (create_leaves tables creates).imp fun _ _ woken _ =>
        woken
  | issue lease admission fleet host revision leasedUntil clock =>
      unfold Daemon.step
      dsimp only
      split
      · exact Leaves.refl s.tables
      · rename_i issues
        exact issue_leaves tables issues
  | meter lease meteredAt expiresAt nanos clock =>
      exact meter_leaves tables lease meteredAt expiresAt nanos clock
  | prepareResume fleet workspace task => exact Leaves.refl s.tables
  | control request control wake id capacity clock =>
      unfold Daemon.step
      dsimp only
      split
      · rename_i resumes
        subst resumes
        split
        · exact Leaves.refl s.tables
        · rename_i c read
          split
          · rename_i same
            have of (row : TaskRow) (found : s.tables.find request.fleet request.workspace
                request.task = some row) : c.Of row :=
              sound.here (sound.wakes c (List.mem_of_getElem? read))
                (fun row of => of.task.symm.trans same.2.2) found
            refine commit_keeps fun after controls => ?_
            refine (control_leaves etag tables (fun _ => rfl) (fun row found => ?_) controls).imp
              fun task generation woken current => woken fun other row named found => ?_
            · exact ⟨fun other named => Option.some.inj named ▸ (of row found).task,
                fun other named => Option.some.inj named ▸ (of row found).reached⟩
            · cases named
              exact (of row found).next (current c row read found)
          · exact Leaves.refl s.tables
      · rename_i stops
        refine commit_keeps fun after controls => ?_
        refine (control_leaves etag tables (fun resumes => absurd resumes stops) ?_ controls).imp ?_
        · exact fun _ _ => ⟨fun _ named => (nomatch named), fun _ named => (nomatch named)⟩
        · exact fun _ _ woken _ => woken fun _ _ named _ => nomatch named
  | readOrigin fleet workspace task operation revision => exact Leaves.refl s.tables
  | adopt origin expectedTag expectedGeneration reviewed goalDigest id capacity clock =>
      unfold Daemon.step
      dsimp only
      split
      · exact Leaves.refl s.tables
      · rename_i held read
        refine commit_keeps fun after adopts => ?_
        exact (adopt_leaves etag adoptionDigest tables (fun row found =>
          sound.here (sound.origins held (List.mem_of_getElem? read)) (fun _ of => of.here.1) found)
          adopts).imp fun _ _ woken current => woken fun row found => current held row read found
  | prepareInput fleet workspace task => exact Leaves.refl s.tables
  | input fleet workspace task opens wake id capacity clock =>
      unfold Daemon.step
      cases wake with
      | none =>
          refine commit_keeps fun after accepts => ?_
          refine (input_leaves tables ?_ accepts).imp fun _ _ woken _ => woken
          exact fun _ named => nomatch named
      | some place =>
          dsimp only
          split
          · exact Leaves.refl s.tables
          · rename_i c read
            split
            · rename_i same
              exact commit_keeps fun after accepts => (input_leaves tables
                (fun other named => Option.some.inj named ▸ same) accepts).imp
                  fun _ _ woken _ => woken
            · exact Leaves.refl s.tables
  | prepareReport lease input target dependency held clock => exact Leaves.refl s.tables
  | report lease measured plan live id wait capacity clock =>
      unfold Daemon.step
      refine commit_keeps fun after reports => ?_
      obtain ⟨⟨settled, notice⟩, settles, rfl⟩ := map_ok reports
      refine (report_leaves digest tables (fun prepared planned => ?_) settles).imp
        fun _ _ woken _ => woken
      obtain ⟨place, -, read⟩ := Option.bind_eq_some_iff.mp (Option.filter_eq_some_iff.mp planned).1
      exact sound.reports prepared (List.mem_of_getElem? read)
  | claim candidate id visit =>
      unfold Daemon.step
      dsimp only
      split
      · exact Leaves.refl s.tables
      · rename_i claims
        exact claim_leaves tables claims
  | finish claimed result visit id capacity =>
      unfold Daemon.step
      dsimp only
      split
      · exact Leaves.refl s.tables
      · rename_i held found
        exact commit_keeps fun after finishes =>
          (finish_leaves digest tables (sound.claimed held (List.mem_of_getElem? found))
            finishes).imp fun _ _ woken _ => woken
  | signal event => exact signal_leaves s.tables event
  | expire fleet workspace task clock => exact expire_leaves tables fleet workspace task clock
  | blockChanged admission fleet workspace clock =>
      exact blockChanged_leaves tables admission fleet workspace clock
  | spend task usedModelNanos reservedModelNanos resourceVersion =>
      exact each_leaves s.tables task fun row => Moves.of_same rfl rfl rfl rfl rfl rfl
  | goal task goal => exact beside_leaves s.tables _ s.tables.adoptions

end Step

/-! ## Stale stamps -/

def Tables.subject (t : Tables) (fleet workspace task : String) (generation : Int) :
    Option (TaskRow × Int) :=
  (t.find fleet workspace task).map fun row => (row, generation)

def Tables.bound (t : Tables) (row : Admission) : Option (TaskRow × Int) :=
  row.task.bind fun task => row.taskGeneration.bind (t.subject row.fleet row.workspace task)

/-- The task a transaction is for, and the generation its request, admission, lease, wait or
prepared wake is stamped with. -/
def Event.stamp (s : Daemon) : Event → Option (TaskRow × Int)
  | .issue _ admission fleet _ _ _ _ =>
      (s.tables.admissions.find? fun row =>
        decide (row.id = admission ∧ row.fleet = fleet ∧ row.settled = false)).bind s.tables.bound
  | .control request _ _ _ _ _ =>
      s.tables.subject request.fleet request.workspace request.task request.expectedGeneration
  | .adopt origin _ expectedGeneration _ _ _ _ _ =>
      s.origins[origin]?.bind fun held =>
        s.tables.subject held.fleet held.workspace held.task expectedGeneration
  | .input fleet workspace task _ (some wake) _ _ _ =>
      s.wakes[wake]?.bind fun c => s.tables.subject fleet workspace task (c.generation - 1)
  | .report lease _ _ _ _ _ _ _ =>
      (s.tables.reported lease).bind fun row => row.attachment.bind fun held =>
        s.tables.subject row.fleet row.workspace held.task held.generation
  | .claim candidate _ visit =>
      (s.tables.store.owner candidate visit.free visit.readAt).map fun owner =>
        (owner.task, owner.row.taskGeneration)
  | .finish claimed _ _ _ _ =>
      s.claimed[claimed]?.bind fun held =>
        s.tables.subject held.owner.row.fleet held.owner.row.workspace held.owner.row.task
          held.owner.row.taskGeneration
  | .blockChanged admission fleet workspace _ =>
      (s.tables.admissions.find? fun row =>
        decide (row.id = admission ∧ row.fleet = fleet ∧ row.workspace = workspace)).bind
          s.tables.bound
  | _ => none

/-- What a transaction may still do once its task has moved on: a report ends its lease and
accounts what it measured, and a claim cancels the waits the task left. -/
def Daemon.Discards (s after : Daemon) : Event → Prop
  | .report lease measured _ _ _ _ _ clock => ∃ row, s.tables.reported lease = some row ∧
      after = { s with tables := s.tables.counted (row.ended clock) measured clock }
  | .claim candidate _ visit => ∃ owner,
      s.tables.store.owner candidate visit.free visit.readAt = some owner ∧
      after = { s with tables := { s.tables with
        store := s.tables.store.cancel owner.row.task visit.clock } }
  | _ => after = s

section Stale

variable {t : Tables} {row : TaskRow}

theorem subject_spec {fleet workspace task : String} {generation stamp : Int}
    (subject : t.subject fleet workspace task stamp = some (row, generation)) :
    t.find fleet workspace task = some row ∧ generation = stamp := by
  obtain ⟨held, found, same⟩ := Option.map_eq_some_iff.mp subject
  cases same
  exact ⟨found, rfl⟩

theorem control_stale (etag : Tables → TaskRow → String) {request : Request}
    {control : TaskControl} {prepared : Prepared} {clock : Int} {after : Tables}
    (found : t.find request.fleet request.workspace request.task = some row)
    (older : (request.expectedGeneration : Int) < row.generation) :
    t.control etag request control prepared clock ≠ .ok after := by
  intro controls
  have passed : counter row.generation ≠ some request.expectedGeneration := fun same => by
    have equal := counter_eq same
    omega
  unfold Tables.control at controls
  rw [found] at controls
  dsimp only at controls
  rw [if_pos passed] at controls
  split at controls
  · cases controls
  · cases controls

theorem adopt_stale (etag : Tables → TaskRow → String)
    (adoptionDigest : String → String → Nat → String) {origin : Origin} {request : Request}
    {reviewed : Bool} {goalDigest : String} {prepared : Prepared} {clock : Int} {after : Tables}
    (found : t.find request.fleet request.workspace request.task = some row)
    (older : (request.expectedGeneration : Int) < row.generation)
    (adopts : t.adopt etag adoptionDigest origin request reviewed goalDigest prepared clock =
      .ok after) : after = t := by
  have passed : counter row.generation ≠ some request.expectedGeneration ∨
      row.status.isTerminal = true := .inl fun same => by
    have equal := counter_eq same
    omega
  unfold Tables.adopt at adopts
  rw [found] at adopts
  dsimp only at adopts
  rw [if_pos passed] at adopts
  split at adopts
  · split at adopts
    · cases adopts
      rfl
    · cases adopts
  · split at adopts
    · split at adopts
      · cases adopts
        rfl
      · cases adopts
    · split at adopts
      · cases adopts
      · cases adopts

theorem input_stale {fleet workspace task : String} {opens : Bool} {c : Continuation}
    {id : String} {capacity : Capacity} {clock : Int} {after : Tables}
    (found : t.find fleet workspace task = some row)
    (older : (c.generation : Int) - 1 < row.generation) :
    t.input fleet workspace task opens ⟨some c, id, capacity⟩ clock ≠ .ok after := by
  intro accepts
  have passed : (counter row.generation).map (· + 1) ≠ some c.generation ∨
      ¬ (row.status = .waiting ∨ row.status = .blocked) := .inl fun same => by
    obtain ⟨count, read, next⟩ := Option.map_eq_some_iff.mp same
    have equal := counter_eq read
    omega
  unfold Tables.input at accepts
  rw [found] at accepts
  dsimp only at accepts
  rw [if_pos passed] at accepts
  split at accepts
  · cases accepts
  · cases accepts

theorem report_stale (digest : Snapshot → String) (sound : t.Sound) {lease : String}
    {owner : Lease} {held : Attachment} {measured : Option Int} {plan : Option PreparedReport}
    {live : Live} {id wait : String} {capacity : Capacity} {clock : Int}
    (reported : t.reported lease = some owner) (attached : owner.attachment = some held)
    (found : t.find owner.fleet owner.workspace held.task = some row)
    (older : held.generation < row.generation) :
    ∃ notice, t.report digest lease measured plan live id wait capacity clock =
      .ok (t.counted (owner.ended clock) measured clock, notice) := by
  have drawn : ∃ old ∈ t.leases, (owner.ended clock).admission = old.admission :=
    ⟨owner, List.mem_of_find?_eq_some reported, rfl⟩
  have counted : Leaves False (fun _ _ => True) t (t.counted (owner.ended clock) measured clock) :=
    counted_leaves sound drawn measured clock
  have ends : (owner.ended clock).attachment = some held := attached
  unfold Tables.report Tables.settle
  rw [reported]
  dsimp only
  rw [ends]
  dsimp only
  split
  · exact ⟨none, rfl⟩
  · rename_i task finds
    have before := Tables.find_spec found
    have later := Tables.find_spec finds
    have moved := counted.tasks.of_key (fun _ _ moved => moved.id) sound.tasks before.1 later.1
      (later.2.1.trans before.2.1.symm)
    have up := moved.older
    have passed : held.generation ≠ task.generation := by omega
    rw [if_pos (.inl passed)]
    exact ⟨_, rfl⟩

theorem follow_still {store : Store} (still : store.tasks = t.store.tasks) (task : String) :
    t.follow store task = { t with store := store } := by
  unfold Tables.follow
  rw [still]
  cases Table.find TaskRow.id task t.store.tasks with
  | none => rfl
  | some row => exact if_pos rfl

theorem claim_stale {candidate id : String} {visit : Visit} {owner : Wait}
    (read : t.store.owner candidate visit.free visit.readAt = some owner)
    (older : owner.row.taskGeneration < owner.task.generation) :
    t.claim candidate id visit =
      .ok ({ t with store := t.store.cancel owner.row.task visit.clock }, none) := by
  have left : owner.current = false := by
    refine Bool.eq_false_iff.mpr fun current => ?_
    have same := (current_spec read current).2.2.2
    omega
  have cancels : t.store.claim candidate id visit =
      .ok (t.store.cancel owner.row.task visit.clock, none) := by
    unfold Store.claim
    rw [read]
    exact if_pos left
  have still : (t.store.cancel owner.row.task visit.clock).tasks = t.store.tasks := rfl
  unfold Tables.claim
  rw [read, cancels]
  exact congrArg (fun tables => Except.ok (tables, none)) (follow_still still _)

theorem finish_refused (digest : Snapshot → String) (sound : t.Sound) {claimed : Claimed}
    (of : Held t.store.waits claimed) {result : Except (Option Int) Snapshot} {visit : Visit}
    {store : Store} {disposition : Waits.Disposition}
    (found : t.find claimed.owner.row.fleet claimed.owner.row.workspace claimed.owner.row.task =
      some row)
    (older : claimed.owner.row.taskGeneration < row.generation)
    (finishes : t.store.finish digest ⟨claimed.owner, claimed.claim, result⟩ visit =
      .ok (store, disposition)) : store = t.store ∧ disposition = .refused := by
  rcases Waits.finish_spec digest finishes with refused | ⟨owner, read, current, -, -, -⟩
  · exact refused
  · obtain ⟨wait, member, same⟩ := of
    have spec := Store.owner_spec read
    have here : wait = owner.row := List.inj_on_of_nodup_map sound.waits member spec.1
      (same.id.trans spec.2.1.symm)
    subst here
    have finds := owner_find read
    rw [same.fleet, same.workspace, same.task, found] at finds
    have equal := (current_spec read current).2.2.2
    rw [← Option.some.inj finds, same.taskGeneration] at equal
    omega

theorem finish_stale (digest : Snapshot → String) (sound : t.Sound) {claimed : Claimed}
    (of : Held t.store.waits claimed) {result : Except (Option Int) Snapshot} {visit : Visit}
    {id : String} {capacity : Capacity} {after : Tables}
    (found : t.find claimed.owner.row.fleet claimed.owner.row.workspace claimed.owner.row.task =
      some row)
    (older : claimed.owner.row.taskGeneration < row.generation)
    (finishes : t.finish digest claimed result visit id capacity = .ok after) : after = t := by
  unfold Tables.finish at finishes
  dsimp only at finishes
  split at finishes
  · cases finishes
  · split at finishes
    · cases finishes
    · rename_i finished
      cases (finish_refused digest sound of found older finished).2
    · rename_i finished
      cases finishes
      rw [(finish_refused digest sound of found older finished).1]
      exact follow_still rfl _

theorem bound_spec {selected : Admission} {generation : Int}
    (bound : t.bound selected = some (row, generation)) :
    ∃ task, selected.task = some task ∧ selected.taskGeneration = some generation ∧
      t.find selected.fleet selected.workspace task = some row := by
  obtain ⟨task, named, rest⟩ := Option.bind_eq_some_iff.mp bound
  obtain ⟨stamp, stamped, subject⟩ := Option.bind_eq_some_iff.mp rest
  obtain ⟨found, rfl⟩ := subject_spec subject
  exact ⟨task, named, stamped, found⟩

theorem issue_stale {lease admission fleet : String} {host : Host}
    {revision : Option IssueRevision} {leasedUntil clock generation : Int} {selected : Admission}
    (selects : (t.admissions.find? fun row =>
      decide (row.id = admission ∧ row.fleet = fleet ∧ row.settled = false)) = some selected)
    (bound : t.bound selected = some (row, generation)) (older : generation < row.generation) :
    t.issue lease admission fleet host revision leasedUntil clock = none := by
  obtain ⟨task, named, stamped, found⟩ := bound_spec bound
  have read : (selected.task.bind fun task => t.find selected.fleet selected.workspace task) =
      some row := by
    rw [named]
    exact found
  have passed : host.capable = false ∨ revision.isNone = true ∨
      selected.taskGeneration ≠ (some row).map TaskRow.generation := by
    refine .inr (.inr fun same => ?_)
    rw [stamped] at same
    have equal := Option.some.inj same
    omega
  unfold Tables.issue
  rw [selects]
  dsimp only
  rw [read, if_pos passed, named]
  split
  · rfl
  · split
    · rfl
    · split
      · rfl
      · rfl

theorem blockChanged_stale (sound : t.Sound) {admission fleet workspace : String}
    {clock generation : Int} {selected : Admission}
    (selects : (t.admissions.find? fun row =>
      decide (row.id = admission ∧ row.fleet = fleet ∧ row.workspace = workspace)) = some selected)
    (bound : t.bound selected = some (row, generation)) (older : generation < row.generation) :
    t.blockChanged admission fleet workspace clock = t := by
  obtain ⟨task, named, stamped, found⟩ := bound_spec bound
  have spec := Tables.find_spec found
  unfold Tables.blockChanged
  rw [selects]
  dsimp only
  split
  · rfl
  · rename_i other picks
    have picked := List.find?_some picks
    rw [decide_eq_true_eq, named, stamped] at picked
    have here : other = row := List.inj_on_of_nodup_map sound.tasks
      (List.mem_of_find?_eq_some picks) spec.1
      ((Option.some.inj picked.1).trans spec.2.1.symm)
    have equal := Option.some.inj picked.2.1
    rw [here] at equal
    omega

end Stale

section Run

variable (digest : Snapshot → String) (etag : Tables → TaskRow → String)
  (adoptionDigest : String → String → Nat → String)

theorem commit_unchanged {s : Daemon} {result : Except Fault Tables}
    (unchanged : ∀ after, result = .ok after → after = s.tables) : s.commit result = s := by
  cases result with
  | error fault => rfl
  | ok after =>
      rw [unchanged after rfl]
      rfl

theorem step_stale {s : Daemon} (sound : s.Sound) {event : Event} {row : TaskRow}
    {generation : Int} (stamp : event.stamp s = some (row, generation))
    (older : generation < row.generation) :
    s.Discards (s.step digest etag adoptionDigest event) event := by
  cases event with
  | message id fleet workspace => cases stamp
  | create new lease id capacity charged clock => cases stamp
  | issue lease admission fleet host revision leasedUntil clock =>
      obtain ⟨selected, selects, bound⟩ := Option.bind_eq_some_iff.mp stamp
      change s.step digest etag adoptionDigest _ = s
      unfold Daemon.step
      dsimp only
      rw [issue_stale selects bound older]
  | meter lease meteredAt expiresAt nanos clock => cases stamp
  | prepareResume fleet workspace task => cases stamp
  | control request control wake id capacity clock =>
      obtain ⟨found, rfl⟩ := subject_spec stamp
      change s.step digest etag adoptionDigest _ = s
      unfold Daemon.step
      dsimp only
      split
      · split
        · rfl
        · split
          · exact commit_unchanged fun after controls =>
              absurd controls (control_stale etag found older)
          · rfl
      · exact commit_unchanged fun after controls =>
          absurd controls (control_stale etag found older)
  | readOrigin fleet workspace task operation revision => cases stamp
  | adopt origin expectedTag expectedGeneration reviewed goalDigest id capacity clock =>
      obtain ⟨held, read, subject⟩ := Option.bind_eq_some_iff.mp stamp
      obtain ⟨found, rfl⟩ := subject_spec subject
      change s.step digest etag adoptionDigest _ = s
      unfold Daemon.step
      dsimp only
      rw [read]
      exact commit_unchanged fun after => adopt_stale etag adoptionDigest found older
  | prepareInput fleet workspace task => cases stamp
  | input fleet workspace task opens wake id capacity clock =>
      cases wake with
      | none => cases stamp
      | some place =>
          obtain ⟨c, read, subject⟩ := Option.bind_eq_some_iff.mp stamp
          obtain ⟨found, rfl⟩ := subject_spec subject
          change s.step digest etag adoptionDigest _ = s
          unfold Daemon.step
          dsimp only
          rw [read]
          dsimp only
          split
          · exact commit_unchanged fun after accepts => absurd accepts (input_stale found older)
          · rfl
  | prepareReport lease input target dependency held clock => cases stamp
  | report lease measured plan live id wait capacity clock =>
      obtain ⟨owner, reported, rest⟩ := Option.bind_eq_some_iff.mp stamp
      obtain ⟨held, attached, subject⟩ := Option.bind_eq_some_iff.mp rest
      obtain ⟨found, rfl⟩ := subject_spec subject
      refine ⟨owner, reported, ?_⟩
      unfold Daemon.step
      dsimp only
      obtain ⟨notice, same⟩ := report_stale digest sound.tables reported attached found older
      rw [same]
      rfl
  | claim candidate id visit =>
      obtain ⟨owner, read, same⟩ := Option.map_eq_some_iff.mp stamp
      cases same
      refine ⟨owner, read, ?_⟩
      unfold Daemon.step
      dsimp only
      rw [claim_stale read older]
      dsimp only
      rw [Option.toList_none, List.append_nil]
  | finish claimed result visit id capacity =>
      obtain ⟨held, read, subject⟩ := Option.bind_eq_some_iff.mp stamp
      obtain ⟨found, rfl⟩ := subject_spec subject
      change s.step digest etag adoptionDigest _ = s
      unfold Daemon.step
      dsimp only
      rw [read]
      exact commit_unchanged fun after => finish_stale digest sound.tables
        (sound.claimed held (List.mem_of_getElem? read)) found older
  | signal event => cases stamp
  | expire fleet workspace task clock => cases stamp
  | blockChanged admission fleet workspace clock =>
      obtain ⟨selected, selects, bound⟩ := Option.bind_eq_some_iff.mp stamp
      change s.step digest etag adoptionDigest _ = s
      unfold Daemon.step
      dsimp only
      rw [blockChanged_stale sound.tables selects bound older]
  | spend task usedModelNanos reservedModelNanos resourceVersion => cases stamp
  | goal task goal => cases stamp

theorem start_sound (goals : String → Goal) : (Daemon.start goals).Sound :=
  ⟨⟨List.nodup_nil, List.nodup_nil, List.forall_mem_nil _, List.forall_mem_nil _,
      List.forall_mem_nil _⟩,
    List.forall_mem_nil _, List.forall_mem_nil _, List.forall_mem_nil _, List.forall_mem_nil _⟩

theorem step_sound {s : Daemon} (event : Event) (sound : s.Sound) :
    (s.step digest etag adoptionDigest event).Sound :=
  sound.step (step_keeps digest etag adoptionDigest sound event)
    (step_reads digest etag adoptionDigest s event)

structure Fenced (t : Taken Daemon Event) : Prop where
  kept : ∀ old ∈ t.before.tables.store.tasks, ∃ new ∈ t.after.tables.store.tasks, new.id = old.id
  final : ∀ old ∈ t.before.tables.store.tasks, ∀ new ∈ t.after.tables.store.tasks,
    new.id = old.id → old.status.isTerminal = true → new.status = old.status
  rises : ∀ old ∈ t.before.tables.store.tasks, ∀ new ∈ t.after.tables.store.tasks,
    new.id = old.id → new.status ≠ old.status → old.generation < new.generation ∨
      t.event.Issues ∧ old.status = .ready ∧ new.status = .running
  stale : ∀ row generation, t.event.stamp t.before = some (row, generation) →
    generation < row.generation → t.before.Discards t.after t.event
  woken : t.event.Current t.before → ∀ new ∈ t.after.tables.store.tasks, new.status = .ready →
    (∀ old ∈ t.before.tables.store.tasks, old.id = new.id → old.status = .ready →
      old.generation ≠ new.generation) →
    t.after.tables.Woken new.id new.generation

theorem step_fenced {s : Daemon} (sound : s.Sound) (event : Event) :
    Fenced ⟨s, event, s.step digest etag adoptionDigest event⟩ := by
  have keeps := step_keeps digest etag adoptionDigest sound event
  have moves {old new : TaskRow} (before : old ∈ s.tables.store.tasks)
      (after : new ∈ (s.step digest etag adoptionDigest event).tables.store.tasks)
      (same : new.id = old.id) : Moves _ _ old new :=
    keeps.tasks.of_key (fun _ _ moved => moved.id) sound.tables.tasks before after same
  constructor
  · intro old before
    obtain ⟨new, after, moved⟩ := keeps.tasks.forward before
    exact ⟨new, after, moved.id⟩
  · exact fun old before new after same =>
      (moves before after same).final (sound.tables.ended old before)
  · exact fun old before new after same changed =>
      (moves before after same).fenced.resolve_left changed
  · exact fun row generation stamp older => step_stale digest etag adoptionDigest sound stamp older
  · intro current new after ready anew
    rcases keeps.tasks.backward after with ⟨old, before, moved⟩ | ⟨-, born⟩
    · rcases moved.ready ready with ⟨earlier, same⟩ | woken
      · exact absurd same.symm (anew old before moved.id.symm earlier)
      · exact moved.id ▸ woken current
    · exact born.ready ready current

/-- The fence holds in every run of the daemons. -/
theorem fenced (goals : String → Goal) (events : List Event) :
    ∀ t ∈ taken (Daemon.step digest etag adoptionDigest) (Daemon.start goals) events, Fenced t := by
  intro t member
  obtain ⟨sound, steps⟩ := taken_step (fun _ event sound =>
    step_sound digest etag adoptionDigest event sound) (start_sound goals) t member
  have held := step_fenced digest etag adoptionDigest sound t.event
  rw [← steps] at held
  exact held

end Run

def lateReport : List Event :=
  [.message "message" "fleet" "workspace",
    .issue "lease" "message" "fleet" ⟨true, false, none⟩ none 1000000 0,
    .create ⟨"task", "fleet", "workspace", ⟨1, 1, 1, "head"⟩, 100, 1000000000, 5, 5, 1000000000,
      "revision", "digest"⟩ "lease" "unused" .granted 0 0,
    .control ⟨"fleet", "workspace", "task", "tag", 1⟩ .pause 0 "unused" .granted 0,
    .report "lease" (some 100) none ⟨true, true, .held, true, true⟩ "unused" "unused" .granted 0]

def lateGoal : Goal := ⟨"revision", "digest", none, none, 0, 0, 0, 0⟩

/-- Held of the pause, which raises the task's generation. -/
theorem fenced_lateReport :
    ∃ t ∈ taken (Daemon.step (fun _ => "") (fun _ _ => "tag") (fun _ _ _ => ""))
        (Daemon.start fun _ => lateGoal) lateReport,
      t.before.tables.store.tasks.map TaskRow.generation = [1] ∧
        t.after.tables.store.tasks.map TaskRow.generation = [2] ∧ Fenced t := by
  have pause := List.mem_of_getElem? (i := 3) (l := taken (Daemon.step (fun _ => "")
    (fun _ _ => "tag") (fun _ _ _ => "")) (Daemon.start fun _ => lateGoal) lateReport) rfl
  refine ⟨_, pause, ?_, ?_, fenced _ _ _ (fun _ => lateGoal) lateReport _ pause⟩
  · decide
  · decide

/-- The report of a lease that was fenced by a pause still accounts its usage, and exhausts
the paused task. -/
theorem late_usage_exhausts :
    ¬ ∀ t ∈ taken (Daemon.step (fun _ => "") (fun _ _ => "tag") (fun _ _ _ => ""))
        (Daemon.start fun _ => lateGoal) lateReport,
      ∀ row generation, t.event.stamp t.before = some (row, generation) →
        generation < row.generation → t.after.tables.store.tasks = t.before.tables.store.tasks := by
  intro claim
  have last := claim _ (List.mem_of_getElem? (i := 4) rfl) _ _ rfl (by decide)
  exact absurd (congrArg (List.map TaskRow.status) last) (by decide)

end Agentsfleet.Task.Lifecycle
