import Agentsfleet.Task.Generations

/-!
# What each transaction leaves

Every transaction over a task moves its row as the fence allows, and keeps what the tables
say of each other.
-/

set_option autoImplicit false

namespace Agentsfleet.Task.Lifecycle

open Agentsfleet.Core
open Agentsfleet.Library
open Agentsfleet.Library.Table (Grows)
open Agentsfleet.Waits (Claimed Snapshot Store TaskRow Visit Wait WaitRow)

section Transactions

variable {may : Prop} {woke : String → Int → Prop} {t : Tables}

/-! ## Rows held -/

theorem unfinished_of_open (sound : t.Sound) {row : TaskRow} (held : row ∈ t.store.tasks)
    (none : row.terminalAt = none) : row.status.isTerminal = false := by
  have ended := sound.ended row held
  rw [Ended, none] at ended
  exact ended.symm

theorem leases_leaves {leases : List Lease} (goals : String → Goal)
    (adoptions : List AdoptionReceipt)
    (leased : (∀ lease ∈ t.leases, lease.admission ∈ t.admissions.map Admission.id) →
      ∀ lease ∈ leases, lease.admission ∈ t.admissions.map Admission.id) :
    Leaves may woke t { t with leases := leases, goals := goals, adoptions := adoptions } :=
  ⟨Grows.refl Moves.refl, Grows.refl Same.refl, fun stamped => stamped, leased⟩

theorem beside_leaves (t : Tables) (goals : String → Goal) (adoptions : List AdoptionReceipt) :
    Leaves may woke t { t with goals := goals, adoptions := adoptions } :=
  ⟨Grows.refl Moves.refl, Grows.refl Same.refl, fun stamped => stamped, fun leased => leased⟩

theorem each_leaves (t : Tables) (task : String) {change : TaskRow → TaskRow}
    (moves : ∀ row, Moves may woke row (change row)) : Leaves may woke t (t.write task change) := by
  have grows : Grows (Moves may woke) (Born woke) TaskRow.id t.store.tasks
      (t.write task change).store.tasks := Grows.of_update Moves.refl fun row _ _ => moves row
  exact ⟨grows, Grows.refl Same.refl, fun stamped row member => (stamped row member).grows grows,
    fun leased => leased⟩

/-! ## Usage -/

theorem record_leaves (sound : t.Sound) (lease : Lease) (nanos clock : Int) :
    Leaves may woke t (t.record lease nanos clock) := by
  unfold Tables.record
  split
  · exact Leaves.refl t
  · rename_i held _
    split
    · exact Leaves.refl t
    · rename_i row found
      have written : Leaves may woke t (t.write row.id
          (account nanos ((lease.measured held - held.runtimeAccountedAt) * 1000) clock)) :=
        write_leaves sound (Tables.find_spec found).1 (Moves.account nanos _ clock row)
      refine ⟨written.tasks, written.waits, written.stamped, fun leased => ?_⟩
      exact Table.forall_update _ (fun _ old => old) (written.leased leased)

theorem meter_leaves (sound : t.Sound) (lease : String) (meteredAt expiresAt nanos clock : Int) :
    Leaves may woke t (t.meter lease meteredAt expiresAt nanos clock) := by
  unfold Tables.meter
  split
  · exact Leaves.refl t
  · rename_i row found
    have metered : Leaves may woke t
        { t with
          leases := Table.update (fun other => decide (other.id = lease))
            (fun _ => { row with lastMeteredAt := meteredAt, expiresAt := expiresAt })
            t.leases } :=
      leases_leaves t.goals t.adoptions fun leased =>
        Table.forall_update _ (fun _ _ => leased row (List.mem_of_find?_eq_some found)) leased
    exact metered.trans (record_leaves (metered.sound sound) _ nanos clock)

theorem close_leaves {lease : Lease}
    (drawn : ∃ old ∈ t.leases, lease.admission = old.admission) :
    Leaves may woke t (t.close lease) := by
  obtain ⟨old, member, same⟩ := drawn
  refine ⟨Grows.refl Moves.refl, Grows.refl Same.refl, settled_stamped, fun leased => ?_⟩
  rw [Tables.close, settled_ids]
  exact Table.forall_update _ (fun _ _ => same ▸ leased old member) leased

theorem counted_leaves (sound : t.Sound) {lease : Lease}
    (drawn : ∃ old ∈ t.leases, lease.admission = old.admission) (measured : Option Int)
    (clock : Int) : Leaves may woke t (t.counted lease measured clock) := by
  have closed : Leaves may woke t (t.close lease) := close_leaves drawn
  cases measured with
  | none => exact closed
  | some nanos => exact closed.trans (record_leaves (closed.sound sound) lease nanos clock)

/-! ## Stops -/

theorem expire_leaves (sound : t.Sound) (fleet workspace task : String) (clock : Int) :
    Leaves may woke t (t.expire fleet workspace task clock) := by
  unfold Tables.expire
  split
  · exact Leaves.refl t
  · rename_i row found
    have held := (Tables.find_spec found).1
    dsimp only
    split
    · rename_i due
      have unfinished :=
        unfinished_of_open sound held (Option.isNone_iff_eq_none.mp due.1)
      exact move_leaves sound held (Moves.transition unfinished nofun _ clock) clock
    · exact Leaves.refl t

theorem blockChanged_leaves (sound : t.Sound) (admission fleet workspace : String) (clock : Int) :
    Leaves may woke t (t.blockChanged admission fleet workspace clock) := by
  unfold Tables.blockChanged
  split
  · exact Leaves.refl t
  · split
    · exact Leaves.refl t
    · rename_i row found
      have held := List.mem_of_find?_eq_some found
      have picked := List.find?_some found
      rw [decide_eq_true_eq] at picked
      refine move_leaves sound held ?_ clock
      exact Moves.of_next rfl rfl rfl rfl (unfinished_of_open sound held picked.2.2.1) nofun
        fun none => congrArg Option.isSome none

/-! ## Human requests -/

structure Prepared.Of (prepared : Prepared) (row : TaskRow) : Prop where
  task : ∀ c, prepared.continuation = some c → c.task = row.id
  reached : ∀ c, prepared.continuation = some c → (c.generation : Int) ≤ row.generation + 1

theorem control_leaves (etag : Tables → TaskRow → String) {after : Tables} (sound : t.Sound)
    {request : Request} {control : TaskControl} {prepared : Prepared} {clock : Int}
    (wakes : control = .resume → prepared.continuation.isSome = true)
    (of : ∀ row, t.find request.fleet request.workspace request.task = some row → prepared.Of row)
    (controls : t.control etag request control prepared clock = .ok after) :
    Leaves may (fun task generation =>
      (∀ c row, prepared.continuation = some c →
        t.find request.fleet request.workspace request.task = some row → c.Next row) →
      after.Woken task generation) t after := by
  unfold Tables.control at controls
  split at controls
  · cases controls
  · rename_i row found
    have held := (Tables.find_spec found).1
    split at controls
    · cases controls
    · split at controls
      · cases controls
      · split at controls
        · cases controls
          exact Leaves.refl t
        · split at controls
          · cases controls
          · rename_i standing
            rw [not_or, Bool.not_eq_true] at standing
            split at controls
            · cases controls
            · dsimp only at controls
              have steps (control : TaskControl) :
                  Steps row (controlled control (t.goals row.id) clock row) :=
                ⟨rfl, rfl, rfl, rfl⟩
              split at controls
              · rename_i none
                cases controls
                refine move_leaves sound held (Moves.controlled standing.1 (fun resumes => ?_)
                  (t.goals row.id) clock) clock
                have absent := wakes resumes
                rw [none] at absent
                cases absent
              · rename_i c named
                have prepared_of := of row found
                refine wake_leaves sound held (steps control) controls (prepared_of.task c named)
                  (prepared_of.reached c named) (Moves.controlled standing.1 (fun _ next => ?_)
                    (t.goals row.id) clock)
                exact queue_woken sound held (steps control) controls (next c row named found)

theorem after_next {row : TaskRow} {fleet workspace task : String} {c : Continuation}
    (wake : Continuation.after fleet workspace task row.generation = some c)
    (here : row.id = task ∧ row.fleet = fleet ∧ row.workspace = workspace) : c.Next row := by
  obtain ⟨fleets, workspaces, tasks, next⟩ := Continuation.after_spec wake
  exact ⟨fleets.trans here.2.1.symm, workspaces.trans here.2.2.symm, tasks.trans here.1.symm, next⟩

theorem Origin.wake_spec {origin : Origin} {c : Continuation} (wake : origin.wake = some c) :
    Continuation.after origin.fleet origin.workspace origin.task origin.generation = some c := by
  unfold Origin.wake at wake
  split at wake
  · exact wake
  · cases wake

structure Origin.Of (origin : Origin) (row : TaskRow) : Prop where
  here : row.id = origin.task ∧ row.fleet = origin.fleet ∧ row.workspace = origin.workspace
  older : origin.generation ≤ row.generation
  state : origin.generation = row.generation →
    row.status = origin.state ∨ origin.state = .ready ∧ row.status = .running

/-- An adopted revision moves its task to the next generation and wakes it there unless it
had stopped, when its origin was read at the generation it moves on from. -/
theorem updateGoal_leaves {after : Tables} (sound : t.Sound) {row : TaskRow}
    (held : row ∈ t.store.tasks) (unfinished : row.status.isTerminal = false) {origin : Origin}
    (of : origin.Of row) {goalDigest id : String} {capacity : Capacity} {clock : Int}
    (updates : t.updateGoal row origin goalDigest ⟨origin.wake, id, capacity⟩ clock = .ok after) :
    Leaves may (fun task generation => origin.generation = row.generation →
      after.Woken task generation) t after := by
  unfold Tables.updateGoal at updates
  dsimp only at updates
  have steps : Steps row (adopted origin.eligible (t.goals row.id) clock row) :=
    ⟨rfl, rfl, rfl, rfl⟩
  generalize Function.update t.goals row.id _ = goals at updates
  have beside : Leaves may (fun task generation => origin.generation = row.generation →
      after.Woken task generation) t { t with goals := goals } := beside_leaves t goals t.adoptions
  refine beside.trans ?_
  split at updates
  · rename_i ineligible
    cases updates
    refine move_leaves (beside.sound sound) held
      (Moves.adopted unfinished (fun ready current => ?_) (t.goals row.id) clock) clock
    -- A task that is still where it was read is not ready: it was not eligible.
    rw [ineligible, if_neg Bool.false_ne_true] at ready
    rw [Origin.eligible, decide_eq_false_iff_not] at ineligible
    rcases of.state current with same | ⟨before, -⟩
    · exact absurd (.inr (.inl (same.symm.trans ready))) ineligible
    · exact absurd (.inr (.inl before)) ineligible
  · split at updates
    · cases updates
    · rename_i c wake
      have spec := Continuation.after_spec (Origin.wake_spec wake)
      refine wake_leaves (beside.sound sound) held steps updates
        (spec.2.2.1.trans of.here.1.symm) ?_ (Moves.adopted unfinished (fun _ current => ?_)
          (t.goals row.id) clock)
      · have older := of.older
        have next := spec.2.2.2
        omega
      · exact queue_woken (beside.sound sound) held steps updates
          (after_next (current ▸ Origin.wake_spec wake) of.here)

theorem adopt_leaves (etag : Tables → TaskRow → String)
    (adoptionDigest : String → String → Nat → String) {after : Tables} (sound : t.Sound)
    {origin : Origin} {request : Request} {reviewed : Bool} {goalDigest id : String}
    {capacity : Capacity} {clock : Int}
    (of : ∀ row, t.find request.fleet request.workspace request.task = some row → origin.Of row)
    (adopts : t.adopt etag adoptionDigest origin request reviewed goalDigest
      ⟨origin.wake, id, capacity⟩ clock = .ok after) :
    Leaves may (fun task generation =>
      (∀ row, t.find request.fleet request.workspace request.task = some row →
        origin.generation = row.generation) →
      after.Woken task generation) t after := by
  unfold Tables.adopt at adopts
  dsimp only at adopts
  split at adopts
  · split at adopts
    · cases adopts
      exact Leaves.refl t
    · cases adopts
  · split at adopts
    · cases adopts
    · rename_i row found
      split at adopts
      · split at adopts
        · cases adopts
          exact Leaves.refl t
        · cases adopts
      · split at adopts
        · cases adopts
        · split at adopts
          · cases adopts
          · rename_i standing
            rw [not_or, Bool.not_eq_true] at standing
            split at adopts
            · cases adopts
            · split at adopts
              · cases adopts
              · split at adopts
                · cases adopts
                  exact beside_leaves t t.goals _
                · generalize t.adoptions ++ _ = adoptions at adopts
                  have beside : Leaves may (fun task generation =>
                      origin.generation = row.generation → after.Woken task generation) t
                        { t with adoptions := adoptions } := beside_leaves t t.goals adoptions
                  exact (beside.trans (updateGoal_leaves (beside.sound sound)
                    (Tables.find_spec found).1 standing.2 (of row found) adopts)).imp
                      fun _ _ woken current => woken (current row found)

theorem input_leaves {after : Tables} (sound : t.Sound) {fleet workspace task : String}
    {opens : Bool} {prepared : Prepared} {clock : Int}
    (of : ∀ c, prepared.continuation = some c →
      c.fleet = fleet ∧ c.workspace = workspace ∧ c.task = task)
    (accepts : t.input fleet workspace task opens prepared clock = .ok after) :
    Leaves may after.Woken t after := by
  unfold Tables.input at accepts
  dsimp only at accepts
  split at accepts
  · cases accepts
  · rename_i row found
    obtain ⟨held, here⟩ := Tables.find_spec found
    split at accepts
    · cases accepts
    · generalize Function.update t.goals row.id _ = goals at accepts
      have beside : Leaves may after.Woken t { t with goals := goals } :=
        beside_leaves t goals t.adoptions
      refine beside.trans ?_
      split at accepts
      · cases accepts
        exact write_leaves (beside.sound sound) held (Moves.counted row)
      · rename_i c named
        split at accepts
        · cases accepts
        · rename_i standing
          rw [not_or, not_not, not_not] at standing
          split at accepts
          · cases accepts
          · obtain ⟨count, read, same⟩ := Option.map_eq_some_iff.mp standing.1
            obtain ⟨fleets, workspaces, tasks⟩ := of c named
            have next : c.Next row :=
              ⟨fleets.trans here.2.1.symm, workspaces.trans here.2.2.symm, tasks.trans here.1.symm,
                by rw [← same, counter_eq read]; rfl⟩
            have steps : Steps row (steered true row) := ⟨rfl, rfl, rfl, rfl⟩
            have unfinished : row.status.isTerminal = false := by
              rcases standing.2 with waiting | blocked
              · rw [waiting]
                rfl
              · rw [blocked]
                rfl
            exact wake_leaves (beside.sound sound) held steps accepts next.task
              (Int.le_of_eq next.generation) (Moves.steered unfinished
                (queue_woken (beside.sound sound) held steps accepts next))

/-! ## Reports -/

structure PreparedReport.Of (plan : PreparedReport) (row : TaskRow) : Prop where
  here : row.fleet = plan.row.fleet ∧ row.workspace = plan.row.workspace
  wake : ∀ c, plan.wake = some c →
    Continuation.after plan.row.fleet plan.row.workspace plan.row.id plan.row.generation = some c

theorem arm_leaves {store : Store} {wait task lease : String} {target : Waits.BoundPr}
    {baseline : String} {dependency : Snapshot} {clock : Int}
    (arms : t.store.arm wait task lease target baseline dependency clock = some store) :
    Leaves may woke t { t with store := store } := by
  unfold Store.arm at arms
  split at arms
  · cases arms
  · split at arms
    · cases arms
      exact Leaves.refl t
    · rename_i owner found
      split at arms
      · cases arms
      · rename_i unclashed
        cases arms
        have grows : Grows (Moves may woke) (Born woke) TaskRow.id t.store.tasks
            (Table.update (fun row => decide (row.id = task))
              (fun row => { row with waitSequence := some (row.waitSequence.getD 0 + 1) })
              t.store.tasks) :=
          Grows.of_update Moves.refl fun row _ _ => Moves.of_same rfl rfl rfl rfl rfl rfl
        refine ⟨grows, Grows.of_insert Same.refl (fun taken => ?_) trivial,
          fun stamped other member => (stamped other member).grows grows, fun leased => leased⟩
        obtain ⟨other, member, same⟩ := List.mem_map.mp taken
        refine unclashed (List.any_eq_true.mpr ⟨other, member, ?_⟩)
        rw [WaitRow.clashes, decide_eq_true same]
        rfl

theorem stop_leaves (sound : t.Sound) {row : TaskRow} (held : row ∈ t.store.tasks)
    (unfinished : row.status.isTerminal = false) {state : TaskState} (stops : state ≠ .ready)
    (reason : Option String) (clock : Int) :
    Leaves may woke t (t.move row (fun row => row.transition state reason clock) clock) :=
  move_leaves sound held
    (Moves.transition unfinished (fun ready => absurd ready stops) reason clock) clock

inductive Settled (digest : Snapshot → String) (lease : Lease) (plan : Option PreparedReport)
    (id wait : String) (capacity : Capacity) (clock : Int) (t : Tables) (row : TaskRow) :
    Tables → Prop
  | stopped (state : TaskState) (reason : Option String) (stops : state ≠ .ready) :
      Settled digest lease plan id wait capacity clock t row
        (t.move row (fun row => row.transition state reason clock) clock)
  | armed (reason : Option String) (target : Target) (status : Snapshot) (store : Store)
      (arms : (t.move row (fun row => row.transition .waiting reason clock) clock).store.arm wait
        row.id lease.id target.pr (digest status) status clock = some store) :
      Settled digest lease plan id wait capacity clock t row
        { t.move row (fun row => row.transition .waiting reason clock) clock with store := store }
  | continued (prepared : PreparedReport) (c : Continuation) (reason : Option String)
      (after : Tables) (planned : plan = some prepared) (wake : prepared.wake = some c)
      (same : prepared.matches_ row (t.goals row.id) = true)
      (continues : t.continueReady row (fun row => row.transition .ready reason clock) clock c id
        capacity = .ok after) :
      Settled digest lease plan id wait capacity clock t row after

theorem settle_spec (digest : Snapshot → String) {after : Tables} {lease : Lease}
    {plan : Option PreparedReport} {live : Live} {id wait : String} {capacity : Capacity}
    {clock : Int} {notice : Option Notice}
    (settles : t.settle digest lease plan live id wait capacity clock = .ok (after, notice)) :
    after = t ∨ ∃ held row, lease.attachment = some held ∧
      t.find lease.fleet lease.workspace held.task = some row ∧
      held.generation = row.generation ∧ row.status = .running ∧
      Settled digest lease plan id wait capacity clock t row after := by
  unfold Tables.settle at settles
  dsimp only at settles
  split at settles
  · cases settles
    exact .inl rfl
  · rename_i held attached
    split at settles
    · cases settles
      exact .inl rfl
    · rename_i row found
      split at settles
      · cases settles
        exact .inl rfl
      · rename_i standing
        rw [not_or, not_or, not_not, not_not, not_not] at standing
        refine .inr ⟨held, row, attached, found, standing.1, standing.2.2, ?_⟩
        split at settles
        · cases settles
          exact .stopped .blocked _ (by decide)
        · rename_i prepared
          split at settles
          · cases settles
            exact .stopped .exhausted _ (by decide)
          · split at settles
            · cases settles
              exact .stopped .blocked _ (by decide)
            · rename_i same
              split at settles
              · cases settles
                exact .stopped .exhausted _ (by decide)
              · split at settles
                · cases settles
                · cases settles
                  exact .stopped .blocked _ (by decide)
                · split at settles
                  · cases settles
                    exact .stopped .blocked _ (by decide)
                  · rename_i c wake
                    split at settles
                    · rename_i continues
                      cases settles
                      exact .continued prepared c _ _ rfl wake (Bool.not_eq_false _ ▸ same)
                        continues
                    · cases settles
                      exact .stopped .blocked _ (by decide)
                    · cases settles
                · split at settles
                  · cases settles
                  · split at settles
                    · cases settles
                    · rename_i arms
                      cases settles
                      exact .armed _ _ _ _ arms
                · rename_i state reason ready _ _
                  cases settles
                  exact .stopped state reason ready

theorem settled_leaves (digest : Snapshot → String) {after : Tables} (sound : t.Sound)
    {lease : Lease} {plan : Option PreparedReport} {id wait : String} {capacity : Capacity}
    {clock : Int} {row : TaskRow} (held : row ∈ t.store.tasks) (running : row.status = .running)
    (of : ∀ prepared, plan = some prepared → row.id = prepared.row.id → prepared.Of row)
    (settled : Settled digest lease plan id wait capacity clock t row after) :
    Leaves may after.Woken t after := by
  have unfinished : row.status.isTerminal = false := by
    rw [running]
    rfl
  cases settled with
  | stopped state reason stops => exact stop_leaves sound held unfinished stops reason clock
  | armed reason target status store arms =>
      exact (stop_leaves sound held unfinished (by decide) reason clock).trans (arm_leaves arms)
  | continued prepared c reason _ planned wake same continues =>
      rw [continueReady_eq] at continues
      obtain ⟨id, generation, -⟩ := of_decide_eq_true same
      obtain ⟨here, wakes⟩ := of prepared planned id
      have next : c.Next row := after_next (generation ▸ wakes c wake) ⟨id, here⟩
      have steps : Steps row (row.transition .ready reason clock) := ⟨rfl, rfl, rfl, rfl⟩
      exact wake_leaves sound held steps continues next.task (Int.le_of_eq next.generation)
        (Moves.transition unfinished (fun _ => queue_woken sound held steps continues next) reason
          clock)

theorem report_leaves (digest : Snapshot → String) {after : Tables} (sound : t.Sound)
    {lease : String} {measured : Option Int} {plan : Option PreparedReport} {live : Live}
    {id wait : String} {capacity : Capacity} {clock : Int} {notice : Option Notice}
    (of : ∀ prepared, plan = some prepared → ∃ row ∈ t.store.tasks, row.id = prepared.row.id ∧
      prepared.Of row)
    (reports : t.report digest lease measured plan live id wait capacity clock =
      .ok (after, notice)) : Leaves may after.Woken t after := by
  unfold Tables.report at reports
  split at reports
  · cases reports
    exact Leaves.refl t
  · rename_i row found
    have drawn : ∃ old ∈ t.leases, (row.ended clock).admission = old.admission :=
      ⟨row, List.mem_of_find?_eq_some found, rfl⟩
    have counted : Leaves may after.Woken t (t.counted (row.ended clock) measured clock) :=
      counted_leaves sound drawn measured clock
    rcases settle_spec digest reports with same | ⟨held, task, -, found, -, running, settled⟩
    · rw [same] at counted ⊢
      exact counted
    · refine counted.trans (settled_leaves digest (counted.sound sound)
        (Tables.find_spec found).1 running (fun prepared planned id => ?_) settled)
      obtain ⟨old, earlier, named, here⟩ := of prepared planned
      have moved := counted.tasks.of_key (fun _ _ moved => moved.id) sound.tasks earlier
        (Tables.find_spec found).1 (id.trans named.symm)
      exact ⟨⟨moved.fleet.trans here.here.1, moved.workspace.trans here.here.2⟩, here.wake⟩

/-! ## Waits -/

structure Stays (may : Prop) (woke : String → Int → Prop) (store after : Store) : Prop where
  tasks : Grows (Moves may woke) (Born woke) TaskRow.id store.tasks after.tasks
  waits : Grows Same (fun _ => True) WaitRow.id store.waits after.waits

variable {store : Store}

theorem Stays.refl (store : Store) : Stays may woke store store :=
  ⟨Grows.refl Moves.refl, Grows.refl Same.refl⟩

theorem follow_leaves {after : Store} (stays : Stays may woke t.store after) (task : String) :
    Leaves may woke t (t.follow after task) := by
  have stamped : (∀ row ∈ t.admissions, Stamped t.store.tasks row) →
      ∀ row ∈ t.admissions, Stamped after.tasks row :=
    fun stamped row member => (stamped row member).grows stays.tasks
  unfold Tables.follow
  split
  · split
    · exact ⟨stays.tasks, stays.waits, stamped, fun leased => leased⟩
    · refine ⟨stays.tasks, stays.waits, fun before => settled_stamped (stamped before),
        fun leased => ?_⟩
      rw [retire, settled_ids]
      exact leased
  · exact ⟨stays.tasks, stays.waits, stamped, fun leased => leased⟩

theorem follow_moved (apart : (t.store.tasks.map TaskRow.id).Nodup) {after : Store}
    {old new : TaskRow} (held : old ∈ t.store.tasks)
    (found : Table.find TaskRow.id old.id after.tasks = some new)
    (moved : new.generation ≠ old.generation) :
    t.follow after old.id =
      { t with store := after, admissions := retire new t.leases t.admissions } := by
  rw [Tables.follow, Table.find_of_mem apart held, found]
  exact if_neg moved

theorem cancel_waits (task : String) (clock : Int) :
    Grows Same (fun _ => True) WaitRow.id store.waits (store.cancel task clock).waits :=
  Grows.of_update Same.refl fun _ _ _ => ⟨rfl, rfl, rfl, rfl, rfl⟩

theorem current_spec {id : String} {free : Bool} {at_ : Int} {owner : Wait}
    (read : store.owner id free at_ = some owner) (current : owner.current = true) :
    owner.task ∈ store.tasks ∧ owner.task.id = owner.row.task ∧
      owner.task.status.isTerminal = false ∧ owner.row.taskGeneration = owner.task.generation := by
  have spec := Store.owner_spec read
  simp only [Wait.current, Bool.and_eq_true, decide_eq_true_eq] at current
  refine ⟨spec.2.2.2.1, spec.2.2.2.2.1, ?_, current.1.1.1.1.1.2⟩
  rw [current.1.1.1.1.1.1]
  rfl

section Current

variable (apart : (store.tasks.map TaskRow.id).Nodup) {id : String} {free : Bool} {at_ : Int}
  {owner : Wait} (read : store.owner id free at_ = some owner) (current : owner.current = true)

include apart read current

theorem stop_stays {state : TaskState} (stops : state ≠ .ready) (reason : String) (clock : Int) :
    Stays may woke store (store.stop owner state reason clock) := by
  obtain ⟨held, same, unfinished, -⟩ := current_spec read current
  refine ⟨?_, cancel_waits _ clock⟩
  rw [Store.stop, ← same]
  exact update_grows apart held
    (Moves.transition unfinished (fun ready => absurd ready stops) (some reason) clock)

theorem ready_grows (clock : Int)
    (woken : woke owner.task.id (owner.task.generation + 1)) :
    Grows (Moves may woke) (Born woke) TaskRow.id store.tasks
      (store.updateTask owner.row.task fun task => task.transition .ready none clock).tasks := by
  obtain ⟨held, same, unfinished, -⟩ := current_spec read current
  rw [← same]
  exact update_grows apart held (Moves.transition unfinished (fun _ => woken) none clock)

end Current

theorem claim_stays (apart : (store.tasks.map TaskRow.id).Nodup) {after : Store}
    {candidate id : String} {visit : Visit} {result : Option Claimed}
    (claims : store.claim candidate id visit = .ok (after, result)) :
    Stays may woke store after := by
  unfold Store.claim at claims
  split at claims
  · cases claims
    exact Stays.refl store
  · rename_i owner read
    split at claims
    · cases claims
      exact ⟨Grows.refl Moves.refl, cancel_waits _ _⟩
    · rename_i current
      rw [Bool.not_eq_false] at current
      split at claims
      · cases claims
        exact stop_stays apart read current (by decide) _ _
      · split at claims
        · cases claims
          exact Stays.refl store
        · split at claims
          · cases claims
          · cases claims
            exact stop_stays apart read current (by decide) _ _
          · cases claims
            have reserved (fallback : Bool) : Grows Same (fun _ => True) WaitRow.id store.waits
                (Table.update (fun row => decide (row.id = owner.row.id))
                  (fun row => row.reserve id fallback visit.clock) store.waits) :=
              Grows.of_update Same.refl fun _ _ _ => ⟨rfl, rfl, rfl, rfl, rfl⟩
            cases owner.fallback with
            | false => exact ⟨Grows.refl Moves.refl, reserved false⟩
            | true =>
                exact ⟨Grows.of_update Moves.refl fun _ _ _ =>
                  Moves.of_same rfl rfl rfl rfl rfl rfl, reserved true⟩

theorem claim_leaves {after : Tables} (sound : t.Sound) {candidate id : String} {visit : Visit}
    {result : Option Claimed} (claims : t.claim candidate id visit = .ok (after, result)) :
    Leaves may woke t after := by
  unfold Tables.claim at claims
  split at claims
  · cases claims
  · cases claims
    exact Leaves.refl t
  · rename_i claimed
    cases claims
    exact follow_leaves (claim_stays sound.tasks claimed) _

theorem claim_reads {after : Tables} {candidate id : String} {visit : Visit}
    {result : Option Claimed} (claims : t.claim candidate id visit = .ok (after, result)) :
    ∀ held, result = some held → held.owner.row ∈ t.store.waits := by
  unfold Tables.claim at claims
  split at claims
  · cases claims
  · cases claims
    exact fun _ none => nomatch none
  · rename_i claimed
    cases claims
    have reads : Waits.Kept [] (fun _ => True) t.store.waits _ ∧
        ∀ held, result = some held → held.owner.row ∈ t.store.waits := Waits.claim_kept claimed
    exact reads.2

def Held (waits : List WaitRow) (claimed : Claimed) : Prop :=
  ∃ row ∈ waits, Same claimed.owner.row row

theorem owner_find {id : String} {free : Bool} {at_ : Int} {owner : Wait}
    (read : t.store.owner id free at_ = some owner) :
    t.find owner.row.fleet owner.row.workspace owner.row.task = some owner.task := by
  unfold Store.owner at read
  split at read
  · cases read
  · split at read
    · cases read
    · split at read
      · cases read
      · rename_i found
        cases read
        exact found

theorem consumed_spec (digest : Snapshot → String) (sound : t.Sound) {claimed : Claimed}
    (of : Held t.store.waits claimed) {c : Continuation}
    (prepared : Continuation.after claimed.owner.row.fleet claimed.owner.row.workspace
      claimed.owner.row.task claimed.owner.row.taskGeneration = some c)
    {result : Except (Option Int) Snapshot} {visit : Visit} {after : Store}
    (finishes : t.store.finish digest ⟨claimed.owner, claimed.claim, result⟩ visit =
      .ok (after, .consumed)) :
    ∃ task ∈ t.store.tasks, task.id = claimed.owner.row.task ∧ c.Next task ∧
      Table.find TaskRow.id task.id after.tasks =
        some (task.transition .ready none visit.clock) ∧
      ∀ (may : Prop) (woke : String → Int → Prop), woke task.id (task.generation + 1) →
        Stays may woke t.store after := by
  rcases Waits.finish_spec digest finishes with ⟨-, refused⟩ | ⟨owner, read, current, -, -, applies⟩
  · cases refused
  · rcases Waits.apply_spec digest applies with ⟨_, _, -, -, stopped⟩ | ⟨_, _, -, recorded⟩ |
      ⟨snapshot, admission, -, -, -, -, -, rfl⟩
    · cases stopped
    · cases recorded
    · obtain ⟨row, member, same⟩ := of
      have spec := Store.owner_spec read
      have here : row = owner.row := List.inj_on_of_nodup_map sound.waits member spec.1
        (same.id.trans spec.2.1.symm)
      subst here
      obtain ⟨held, owns, -, generation⟩ := current_spec read current
      have scope := (Tables.find_spec (owner_find read)).2
      rw [← same.fleet, ← same.workspace, ← same.task, ← same.taskGeneration, generation]
        at prepared
      refine ⟨owner.task, held, owns.trans same.task, after_next prepared scope, ?_,
        fun may woke woken => ⟨ready_grows sound.tasks read current visit.clock woken,
          Grows.of_update Same.refl fun _ _ _ => ⟨rfl, rfl, rfl, rfl, rfl⟩⟩⟩
      have grows : Grows (Moves False fun _ _ => True) (Born fun _ _ => True) TaskRow.id
          t.store.tasks (t.store.updateTask owner.row.task fun task =>
            task.transition .ready none visit.clock).tasks :=
        ready_grows sound.tasks read current visit.clock trivial
      have inside : owner.task.transition .ready none visit.clock ∈
          (t.store.updateTask owner.row.task fun task =>
            task.transition .ready none visit.clock).tasks := by
        rw [← owns]
        exact update_mem held
      exact Table.find_of_mem (grows.nodup (fun _ _ moved => moved.id) sound.tasks) inside

theorem followed_leaves {after : Tables} (sound : t.Sound) {old new : TaskRow}
    (held : old ∈ t.store.tasks) (steps : Steps old new) {store : Store}
    (found : Table.find TaskRow.id old.id store.tasks = some new)
    (stays : ∀ (may : Prop) (woke : String → Int → Prop), woke old.id (old.generation + 1) →
      Stays may woke t.store store)
    {c : Continuation} (next : c.Next old) {id admitted : String} {capacity : Capacity}
    {admissions : List Admission}
    (staged : stage c id capacity t.admissions = .ok (admissions, admitted))
    (bound : { { t with admissions := admissions }.follow store old.id with
      admissions := bind new admitted
        ({ t with admissions := admissions }.follow store old.id).admissions } = after) :
    Leaves may after.Woken t after := by
  have moved : new.generation ≠ old.generation := by
    rw [steps.next]
    exact Int.ne_of_gt (Int.lt_succ _)
  have stages : stage c id capacity (retire new t.leases t.admissions) =
      .ok (retire new t.leases admissions, admitted) := by
    rw [stage_retire, staged]
    rfl
  rw [follow_moved (t := { t with admissions := admissions }) sound.tasks held found moved]
    at bound
  have woken : after.Woken old.id (old.generation + 1) :=
    stage_woken sound held steps next stages (by rw [← bound]) (by rw [← bound])
  have left := follow_leaves (stays may _ woken) old.id
  rw [follow_moved sound.tasks held found moved] at left
  have queues : Tables.queue
      { t with store := store, admissions := retire new t.leases t.admissions } new c id capacity =
        .ok after := by
    rw [Tables.queue, stages]
    exact congrArg Except.ok bound
  exact left.trans (queue_leaves (Table.mem_of_find found).1 (next.task.trans steps.id.symm)
    (Int.le_of_eq (next.generation.trans steps.next.symm)) queues)

theorem finish_leaves (digest : Snapshot → String) {after : Tables} (sound : t.Sound)
    {claimed : Claimed} (of : Held t.store.waits claimed) {result : Except (Option Int) Snapshot}
    {visit : Visit} {id : String} {capacity : Capacity}
    (finishes : t.finish digest claimed result visit id capacity = .ok after) :
    Leaves may after.Woken t after := by
  unfold Tables.finish at finishes
  dsimp only at finishes
  split at finishes
  · cases finishes
  · rename_i c prepared
    split at finishes
    · cases finishes
    · rename_i store finished
      split at finishes
      · rename_i admissions admitted row staged found
        cases finishes
        obtain ⟨task, held, same, next, moved, stays⟩ :=
          consumed_spec digest sound of prepared finished
        rw [← same, moved] at found
        cases found
        have steps : Steps task (task.transition .ready none visit.clock) := ⟨rfl, rfl, rfl, rfl⟩
        rw [← same]
        exact followed_leaves sound held steps moved stays next staged rfl
      · cases finishes
    · rename_i store_ disposition others finished
      cases finishes
      apply follow_leaves
      rcases Waits.finish_spec digest finished with ⟨rfl, -⟩ | ⟨owner, read, current, -, -, applies⟩
      · exact Stays.refl _
      · rcases Waits.apply_spec digest applies with ⟨state, reason, stops, rfl, -⟩ |
          ⟨snapshot, cooldown, rfl, -⟩ | ⟨-, -, -, -, -, same, -⟩
        · exact stop_stays sound.tasks read current stops _ _
        · exact ⟨Grows.refl Moves.refl, Grows.of_update Same.refl fun _ _ _ =>
            ⟨rfl, rfl, rfl, rfl, rfl⟩⟩
        · exact absurd same others

theorem stays_leaves {after : Store} (stays : Stays may woke t.store after) :
    Leaves may woke t { t with store := after } :=
  ⟨stays.tasks, stays.waits, fun stamped row member => (stamped row member).grows stays.tasks,
    fun leased => leased⟩

theorem signal_leaves (t : Tables) (event : Waits.Event) : Leaves may woke t (t.signal event) := by
  cases event with
  | record completion clock =>
      apply stays_leaves
      unfold Store.record
      split
      · exact ⟨Grows.refl Moves.refl, Grows.refl Same.refl⟩
      · exact Stays.refl _
  | deliver completion free readAt clock =>
      apply stays_leaves
      unfold Store.one
      split
      · exact Stays.refl _
      · split
        · exact ⟨Grows.refl Moves.refl, Grows.refl Same.refl⟩
        · rename_i source row _
          refine ⟨Grows.refl Moves.refl, ?_⟩
          cases source.signals row with
          | false => exact Grows.refl Same.refl
          | true => exact Grows.of_update Same.refl fun _ _ _ => ⟨rfl, rfl, rfl, rfl, rfl⟩
  | postpone completion clock => exact stays_leaves ⟨Grows.refl Moves.refl, Grows.refl Same.refl⟩
  | collect gone => exact stays_leaves ⟨Grows.refl Moves.refl, Grows.refl Same.refl⟩
  | claim candidate id visit => exact Leaves.refl t
  | finish index result visit => exact Leaves.refl t
  | lifecycle tasks cancelled clock => exact Leaves.refl t
  | arm id task lease target dependency clock => exact Leaves.refl t

/-! ## Creation and issue -/

theorem born (new : NewTask) (active : Bool) (woken : active = false → woke new.id 1) :
    Born woke (new.row active) := by
  constructor
  · cases active with
    | true => rfl
    | false => rfl
  · intro ready
    cases active with
    | true => cases ready
    | false => exact woken rfl

theorem insert_leaves {row : TaskRow} (fresh : row.id ∉ t.store.tasks.map TaskRow.id)
    (born : Born woke row) (goals : String → Goal) :
    Leaves may woke t
      { t with store := { t.store with tasks := t.store.tasks ++ [row] }, goals := goals } := by
  have grows : Grows (Moves may woke) (Born woke) TaskRow.id t.store.tasks
      (t.store.tasks ++ [row]) := Grows.of_insert Moves.refl fresh born
  exact ⟨grows, Grows.refl Same.refl, fun stamped other member =>
    (stamped other member).grows grows, fun leased => leased⟩

theorem attach_leaves {row : TaskRow} (fresh : row.id ∉ t.store.tasks.map TaskRow.id)
    (born : Born woke row) (goals : String → Goal) (admission lease : String) (clock : Int) :
    Leaves may woke t
      { t with
        store := { t.store with tasks := t.store.tasks ++ [row] }
        goals := goals
        leases := Table.update (fun other => decide (other.id = lease))
          (fun other => other.attach row clock) t.leases
        admissions := bind row admission t.admissions } := by
  have inserted : Leaves may woke t
      { t with store := { t.store with tasks := t.store.tasks ++ [row] }, goals := goals } :=
    insert_leaves fresh born goals
  refine ⟨inserted.tasks, inserted.waits, fun stamped => ?_, fun leased => ?_⟩
  · exact bind_stamped (List.mem_append_right _ List.mem_cons_self) _ (inserted.stamped stamped)
  · rw [bind_ids]
    exact Table.forall_update _ (fun _ old => old) leased

theorem queue_first {after : Tables} (sound : t.Sound) {row : TaskRow} {store : Store}
    {goals : String → Goal} (fresh : row.id ∉ t.store.tasks.map TaskRow.id)
    {c : Continuation} (fleet : c.fleet = row.fleet) (workspace : c.workspace = row.workspace)
    (task : c.task = row.id) (first : (c.generation : Int) = row.generation) {id : String}
    {capacity : Capacity}
    (queues : Tables.queue { t with store := store, goals := goals } row c id capacity =
      .ok after) : after.Woken row.id row.generation := by
  have absent (held : TaskRow) (member : held ∈ t.store.tasks) : held.id ≠ row.id :=
    fun same => fresh (same ▸ List.mem_map_of_mem member)
  have quiet : ∀ other ∈ t.admissions, other.live t.leases row.id = false := by
    intro other member
    refine Bool.eq_false_iff.mpr fun live => ?_
    obtain ⟨held, inside, same, -⟩ :=
      (sound.stamped other member).bound row.id (Admission.live_iff.mp live).2.2.1
    exact absent held inside same
  have unnamed : ∀ other ∈ t.admissions, other.continuation ≠ some c.key := by
    intro other member named
    obtain ⟨held, inside, earlier, same, owns, -⟩ := (sound.stamped other member).key c.key named
    exact absent held inside (owns.symm.trans ((Continuation.key_inj same).1.symm.trans task))
  unfold Tables.queue at queues
  split at queues
  · cases queues
  · rename_i staged admitted stages
    cases queues
    have alone := bind_stage quiet unnamed sound.leased fleet workspace stages
    exact ⟨c, task, first, _, alone, rfl, rfl⟩

theorem create_leaves {after : Tables} (sound : t.Sound) {new : NewTask} {lease id : String}
    {capacity : Capacity} {charged clock : Int}
    (creates : t.create new lease id capacity charged clock = .ok after) :
    Leaves may after.Woken t after := by
  unfold Tables.create at creates
  split at creates
  · cases creates
  · rename_i owner found
    split at creates
    · cases creates
    · rename_i standing
      rw [not_or] at standing
      have fresh : new.id ∉ t.store.tasks.map TaskRow.id := fun taken => by
        obtain ⟨row, member, same⟩ := List.mem_map.mp taken
        exact standing.1 (List.any_eq_true.mpr ⟨row, member, decide_eq_true same⟩)
      split at creates
      · dsimp only at creates
        have woken : after.Woken new.id 1 := queue_first sound fresh rfl rfl rfl rfl creates
        exact (insert_leaves fresh (born new false fun _ => woken) _).trans
          (queue_leaves (List.mem_append_right _ List.mem_cons_self) rfl (Int.le_refl _) creates)
      · cases creates
        have starts (woke : String → Int → Prop) :
            Born woke { new.row true with usedModelNanos := charged } := ⟨rfl, nofun⟩
        exact attach_leaves fresh (starts _) _ owner.admission owner.id clock

theorem issue_leaves {after : Tables} (sound : t.Sound) {lease admission fleet : String}
    {host : Host} {revision : Option IssueRevision} {leasedUntil clock : Int}
    (issues : t.issue lease admission fleet host revision leasedUntil clock = some after) :
    Leaves True woke t after := by
  unfold Tables.issue at issues
  split at issues
  · cases issues
  · rename_i selected found
    dsimp only at issues
    have leased (attachment : Option Attachment) (expiresAt : Int) :
        (∀ other ∈ t.leases, other.admission ∈ t.admissions.map Admission.id) →
          ∀ other ∈ t.leases ++ [⟨lease, selected.fleet, selected.workspace, admission, true,
            stored clock, expiresAt, attachment⟩],
              other.admission ∈ t.admissions.map Admission.id := by
      intro before other member
      rcases List.mem_append.mp member with earlier | later
      · exact before other earlier
      · have picked := List.find?_some found
        rw [List.mem_singleton.mp later]
        exact List.mem_map.mpr
          ⟨selected, List.mem_of_find?_eq_some found, (of_decide_eq_true picked).1⟩
    split at issues
    · cases issues
    · split at issues
      · cases issues
      · split at issues
        · cases issues
        · split at issues
          · split at issues
            · cases issues
              exact leases_leaves t.goals t.adoptions (leased none leasedUntil)
            · cases issues
          · split at issues
            · cases issues
            · split at issues
              · cases issues
              · rename_i row selects
                split at issues
                · rename_i starts
                  cases issues
                  obtain ⟨task, -, held⟩ := Option.bind_eq_some_iff.mp selects
                  have written : Leaves True woke t (t.write row.id start) :=
                    write_leaves sound (Tables.find_spec held).1
                      (Moves.started (of_decide_eq_true starts).2.1)
                  exact ⟨written.tasks, written.waits, written.stamped,
                    leased _ (min leasedUntil (stored (deadline row clock)))⟩
                · cases issues

end Transactions

end Agentsfleet.Task.Lifecycle
