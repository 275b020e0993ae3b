import Agentsfleet.Library.Trace
import Agentsfleet.Waits.Probe

/-!
# The waits and who writes them

The daemons' transactions over the waits, in any order: claims, the finishes of
the reads they began, deliveries, and whatever else writes a task.  A claim is
never forgotten, so its finish may come at any later point, more than once, or
never.  A lifecycle change writes tasks as it likes; of their waits it only
cancels, deletes with their task, or arms a new one.
-/

set_option autoImplicit false

namespace Agentsfleet.Waits

open Agentsfleet.Core
open Agentsfleet.Library
open Agentsfleet.Library.Run
open Agentsfleet.Task

/-! ## The system -/

structure System where
  store : Store
  minted : List String
  claimed : List Claimed
deriving DecidableEq

def System.start : System := ⟨⟨[], [], [], []⟩, [], []⟩

inductive Event where
  | claim (candidate id : String) (visit : Visit)
  | finish (index : Nat) (result : Except (Option Int) Snapshot) (visit : Visit)
  | record (completion : Completion) (clock : Int)
  | deliver (completion : String) (free : Bool) (readAt clock : Int)
  | postpone (completion : String) (clock : Int)
  | collect (gone : List String)
  | lifecycle (tasks : List TaskRow) (cancelled : List String) (clock : Int)
  | arm (id task lease : String) (target : BoundPr) (dependency : Snapshot) (clock : Int)

def Completion.wantedBy (completion : Completion) (task : TaskRow) : Bool :=
  decide (task.workspace = completion.workspace) && completion.covers task.fleet &&
    decide (completion.installationId = task.target.installationId) &&
    decide (completion.repositoryId = task.target.repositoryId) &&
    decide (completion.headOid = task.target.head) && task.terminalAt.isNone

/-- `uq_task_completion_run`. -/
def Completion.repeats (completion other : Completion) : Bool :=
  decide (other.workspace = completion.workspace ∧ other.scopeFleet = completion.scopeFleet ∧
    other.installationId = completion.installationId ∧
    other.repositoryId = completion.repositoryId ∧ other.runId = completion.runId ∧
    other.runAttempt = completion.runAttempt)

/-- `sql/completion.sql`, with the completion's row as the ingress builds it. -/
def Store.record (store : Store) (completion : Completion) (clock : Int) : Store :=
  if store.tasks.any completion.wantedBy = true ∧
      store.completions.any completion.repeats = false then
    { store with
      completions := store.completions ++ [{ completion with receivedAt := stored clock }]
      fanouts := store.fanouts ++ [⟨completion.id, none, stored clock, none⟩] }
  else store

/-- `sql/defer_fanout.sql`. -/
def Store.postpone (store : Store) (completion : String) (clock : Int) : Store :=
  { store with
    fanouts := Table.update
      (fun progress => decide (progress.completion = completion) && progress.finishedAt.isNone)
      (fun progress => { progress with nextAttemptAt := stored (clock + 30 * second) })
      store.fanouts }

def Store.collect (store : Store) (gone : List String) : Store :=
  { store with
    completions := store.completions.filter fun completion => decide (completion.id ∉ gone)
    fanouts := store.fanouts.filter fun progress => decide (progress.completion ∉ gone) }

def Store.lifecycle (store : Store) (tasks : List TaskRow) (cancelled : List String)
    (clock : Int) : Store :=
  { store with
    tasks := tasks
    waits := (Table.update (fun row => decide (row.task ∈ cancelled) && row.live)
      (fun row => { row with cancelledAt := some (stored clock) }) store.waits).filter
        fun row => tasks.any fun task => decide (task.id = row.task) }

def BoundPr.fits (target : BoundPr) : Bool :=
  decide (target.installationId < 2 ^ 63) && decide (target.repositoryId < 2 ^ 63) &&
    decide (target.number < 2 ^ 31)

/-- The wait `sql/arm.sql` inserts for a task. -/
def TaskRow.wait (task : TaskRow) (id lease : String) (target : BoundPr) (baseline : String)
    (dependency : Snapshot) (clock : Int) : WaitRow :=
  { id := id
    task := task.id
    fleet := task.fleet
    workspace := task.workspace
    ownerLease := lease
    taskGeneration := task.generation
    stopGeneration := task.stopGeneration
    generation := task.waitSequence.getD 0 + 1
    installationId := target.installationId
    repositoryId := target.repositoryId
    pullRequestNumber := target.number
    expectedHead := target.head
    checks := dependency.checks
    baselineDigest := baseline
    dueAt := stored clock
    expiresAt := task.expiresAt
    cooldownExpiresAt := stored clock
    fallbackCount := 0
    initialReadAt := none
    signalledAt := none
    observedSignalAt := none
    signalSequence := 0
    observedSignalSequence := 0
    claim := none
    consumed := none
    cancelledAt := none }

/-- The table's key and its three unique constraints, the last of live waits only. -/
def WaitRow.clashes (row other : WaitRow) : Bool :=
  decide (other.id = row.id) || decide (other.ownerLease = row.ownerLease) ||
    decide (other.task = row.task ∧ other.generation = row.generation) ||
    (decide (other.task = row.task) && other.live)

/-- `sql/arm.sql`; `none` when a column or a constraint refuses the row. -/
def Store.arm (store : Store) (id task lease : String) (target : BoundPr)
    (baseline : String) (dependency : Snapshot) (clock : Int) : Option Store :=
  if target.fits = false then none
  else
    match store.tasks.find? fun row => decide (row.id = task) with
    | none => some store
    | some owner =>
        if store.waits.any (owner.wait id lease target baseline dependency clock).clashes then none
        else
          some
            { store.updateTask task fun row =>
                { row with waitSequence := some (row.waitSequence.getD 0 + 1) } with
              waits := store.waits ++ [owner.wait id lease target baseline dependency clock] }

section System

variable (digest : Snapshot → String)

def System.step (system : System) : Event → System
  | .claim candidate id visit =>
      match system.store.claim candidate id visit with
      | .error _ => system
      | .ok (store, none) => { system with store := store }
      | .ok (store, some claimed) =>
          { system with store := store, claimed := system.claimed ++ [claimed] }
  | .finish index result visit =>
      match system.claimed[index]? with
      | none => system
      | some claimed =>
          match system.store.finish digest ⟨claimed.owner, claimed.claim, result⟩ visit with
          | .error _ => system
          | .ok (store, _) => { system with store := store }
  | .record completion clock => { system with store := system.store.record completion clock }
  | .deliver completion free readAt clock =>
      { system with store := (system.store.one completion free readAt clock).1 }
  | .postpone completion clock =>
      { system with store := system.store.postpone completion clock }
  | .collect gone => { system with store := system.store.collect gone }
  | .lifecycle tasks cancelled clock =>
      { system with store := system.store.lifecycle tasks cancelled clock }
  | .arm id task lease target dependency clock =>
      -- No two waits are armed under one identifier.
      if id ∈ system.minted then system
      else
        match system.store.arm id task lease target (digest dependency) dependency clock with
        | none => system
        | some store => { system with store := store, minted := system.minted ++ [id] }

/-- The finish consumes the wait `id`. -/
def Wakes (system : System) (event : Event) (id : String) : Prop :=
  ∃ index result visit claimed store, event = .finish index result visit ∧
    system.claimed[index]? = some claimed ∧ claimed.owner.row.id = id ∧
    system.store.finish digest ⟨claimed.owner, claimed.claim, result⟩ visit =
      .ok (store, .consumed)

end System

/-! ## What a transaction leaves of the rows -/

section Ages

variable {claimed : List Claimed} {may : String → Prop}

/-- What a step may do to one row: a signal stays, only a claim's sequence is
observed, and only what `may` allows consumes. -/
structure WaitRow.Ages (claimed : List Claimed) (may : String → Prop) (old new : WaitRow) :
    Prop where
  id : new.id = old.id
  signals : old.signalSequence ≤ new.signalSequence
  observed : new.observedSignalSequence = old.observedSignalSequence ∨
    ∃ held ∈ claimed, held.owner.row.id = old.id ∧
      new.observedSignalSequence = held.owner.row.signalSequence
  consumed : new.consumed = old.consumed ∨ may old.id ∧ old.consumed = none

theorem WaitRow.Ages.refl (row : WaitRow) : row.Ages claimed may row :=
  ⟨rfl, Nat.le_refl _, .inl rfl, .inl rfl⟩

structure Kept (claimed : List Claimed) (may : String → Prop) (before after : List WaitRow) :
    Prop where
  ids : (after.map WaitRow.id).Sublist (before.map WaitRow.id)
  ages : ∀ new ∈ after, ∃ old ∈ before, old.Ages claimed may new

theorem Kept.refl (rows : List WaitRow) : Kept claimed may rows rows :=
  ⟨List.Sublist.refl _, fun row member => ⟨row, member, WaitRow.Ages.refl row⟩⟩

theorem kept_update {here : WaitRow → Bool} {change : WaitRow → WaitRow} {rows : List WaitRow}
    (ages : ∀ row ∈ rows, here row = true → row.Ages claimed may (change row)) :
    Kept claimed may rows (Table.update here change rows) := by
  have each : ∀ row ∈ rows, row.Ages claimed may (if here row then change row else row) := by
    intro row member
    by_cases picked : here row = true
    · rw [if_pos picked]
      exact ages row member picked
    · rw [if_neg picked]
      exact WaitRow.Ages.refl row
  constructor
  · have same : (Table.update here change rows).map WaitRow.id = rows.map WaitRow.id := by
      rw [Table.update, List.map_map]
      exact List.map_congr_left fun row member => (each row member).id
    rw [same]
  · intro new member
    obtain ⟨old, held, rfl⟩ := Table.mem_update.mp member
    exact ⟨old, held, each old held⟩

theorem Kept.filter {before after : List WaitRow} (kept : Kept claimed may before after)
    (stays : WaitRow → Bool) : Kept claimed may before (after.filter stays) :=
  ⟨(List.filter_sublist.map WaitRow.id).trans kept.ids,
    fun new member => kept.ages new (List.mem_of_mem_filter member)⟩

theorem cancel_kept (store : Store) (task : String) (clock : Int) :
    Kept claimed may store.waits (store.cancel task clock).waits :=
  kept_update fun _ _ _ => ⟨rfl, Nat.le_refl _, .inl rfl, .inl rfl⟩

theorem stop_kept (store : Store) (owner : Wait) (state : TaskState) (reason : String)
    (clock : Int) : Kept claimed may store.waits (store.stop owner state reason clock).waits :=
  cancel_kept store owner.row.task clock

theorem lifecycle_kept (store : Store) (tasks : List TaskRow) (cancelled : List String)
    (clock : Int) :
    Kept claimed may store.waits (store.lifecycle tasks cancelled clock).waits := by
  apply Kept.filter
  apply kept_update
  exact fun _ _ _ => ⟨rfl, Nat.le_refl _, .inl rfl, .inl rfl⟩

theorem one_kept (store : Store) (completion : String) (free : Bool) (readAt clock : Int) :
    Kept claimed may store.waits (store.one completion free readAt clock).1.waits := by
  unfold Store.one
  split
  · exact Kept.refl _
  · split
    · exact Kept.refl _
    · rename_i source row _
      cases source.signals row with
      | false => exact Kept.refl _
      | true => exact kept_update fun _ _ _ => ⟨rfl, Nat.le_succ _, .inl rfl, .inl rfl⟩

theorem claim_kept {store after : Store} {candidate id : String} {visit : Visit}
    {result : Option Claimed} (claims : store.claim candidate id visit = .ok (after, result)) :
    Kept claimed may store.waits after.waits ∧
      ∀ held, result = some held → held.owner.row ∈ store.waits := by
  unfold Store.claim at claims
  split at claims
  · cases claims
    exact ⟨Kept.refl _, fun _ none => nomatch none⟩
  · rename_i owner read
    split at claims
    · cases claims
      exact ⟨cancel_kept store _ _, fun _ none => nomatch none⟩
    · split at claims
      · cases claims
        exact ⟨stop_kept store owner _ _ _, fun _ none => nomatch none⟩
      · split at claims
        · cases claims
          exact ⟨Kept.refl _, fun _ none => nomatch none⟩
        · split at claims
          · cases claims
          · cases claims
            exact ⟨stop_kept store owner _ _ _, fun _ none => nomatch none⟩
          · cases claims
            constructor
            · have waits : (if owner.fallback = true then
                  store.updateTask owner.row.task fun task => task.charge "dependency_read_limit"
                else store).waits = store.waits := by
                split
                · rfl
                · rfl
              rw [waits]
              exact kept_update fun _ _ _ => ⟨rfl, Nat.le_refl _, .inl rfl, .inl rfl⟩
            · rintro held same
              cases same
              exact (Store.owner_spec read).1

theorem finish_spec (digest : Snapshot → String) {store after : Store} {probe : Probe}
    {visit : Visit} {disposition : Disposition}
    (finishes : store.finish digest probe visit = .ok (after, disposition)) :
    after = store ∧ disposition = .refused ∨
      ∃ owner, store.owner probe.owner.row.id visit.free visit.readAt = some owner ∧
        owner.current = true ∧ owner.claimValid = some true ∧
        owner.row.claim.map Claim.id = some probe.claim ∧
        store.apply digest owner probe probe.prepared visit = .ok (after, disposition) := by
  unfold Store.finish at finishes
  split at finishes
  · cases finishes
    exact .inl ⟨rfl, rfl⟩
  · rename_i owner read
    split at finishes
    · cases finishes
      exact .inl ⟨rfl, rfl⟩
    · rename_i standing
      rw [not_or, not_or, Bool.not_eq_false, not_not, not_not] at standing
      exact .inr ⟨owner, read, standing.1, standing.2.1, standing.2.2, finishes⟩

theorem apply_spec (digest : Snapshot → String) {store after : Store} {owner : Wait}
    {probe : Probe} {prepared : Bool} {visit : Visit} {disposition : Disposition}
    (applies : store.apply digest owner probe prepared visit = .ok (after, disposition)) :
    (∃ state reason, state ≠ .ready ∧ after = store.stop owner state reason visit.clock ∧
      disposition = .stopped) ∨
    (∃ snapshot cooldown, after = store.update digest owner probe snapshot cooldown visit ∧
      disposition = .recorded) ∨
    ∃ snapshot id, probe.result = .ok snapshot ∧ snapshot.isOpen = true ∧
      snapshot.head = owner.row.expectedHead ∧ disposition = .consumed ∧
      visit.staging = .admitted id ∧
      after =
        { store.updateTask owner.row.task (fun task => task.transition .ready none visit.clock) with
          waits := Table.update (fun row => row.heldBy owner.row.id probe.claim)
            (fun row => row.consume id snapshot.checks (digest snapshot) visit.clock)
            store.waits } := by
  unfold Store.apply at applies
  split at applies
  · cases applies
    exact .inl ⟨.exhausted, _, nofun, rfl, rfl⟩
  · split at applies
    · cases applies
    · cases applies
      exact .inl ⟨.blocked, _, nofun, rfl, rfl⟩
    · split at applies
      · cases applies
        exact .inr (.inl ⟨_, _, rfl, rfl⟩)
      · rename_i snapshot read
        split at applies
        · cases applies
          exact .inl ⟨.blocked, _, nofun, rfl, rfl⟩
        · rename_i standing
          rw [not_or, Bool.not_eq_false, not_not] at standing
          split at applies
          · unfold Store.consume at applies
            split at applies
            · cases applies
            · split at applies
              · cases applies
              · cases applies
                exact .inl ⟨.blocked, _, nofun, rfl, rfl⟩
              · rename_i id staged
                cases applies
                exact .inr (.inr ⟨snapshot, id, read, standing.1, standing.2, rfl, staged, rfl⟩)
          · cases applies
            exact .inr (.inl ⟨_, _, rfl, rfl⟩)

theorem heldBy_iff {row : WaitRow} {id claim : String} :
    row.heldBy id claim = true ↔
      row.id = id ∧ row.claim.map Claim.id = some claim ∧ row.live = true := by
  rw [WaitRow.heldBy, Bool.and_eq_true, Bool.and_eq_true, decide_eq_true_eq, decide_eq_true_eq,
    and_assoc]

theorem WaitRow.live_iff {row : WaitRow} :
    row.live = true ↔ row.consumed = none ∧ row.cancelledAt = none := by
  rw [WaitRow.live, Bool.and_eq_true, Option.isNone_iff_eq_none, Option.isNone_iff_eq_none]

theorem finish_kept (digest : Snapshot → String) {store after : Store} {held : Claimed}
    {result : Except (Option Int) Snapshot} {visit : Visit} {disposition : Disposition}
    (member : held ∈ claimed)
    (finishes : store.finish digest ⟨held.owner, held.claim, result⟩ visit =
      .ok (after, disposition)) :
    Kept claimed (fun id => held.owner.row.id = id ∧ disposition = .consumed)
      store.waits after.waits := by
  rcases finish_spec digest finishes with ⟨rfl, -⟩ | ⟨owner, read, -, -, -, applies⟩
  · exact Kept.refl _
  · have same := (Store.owner_spec read).2.1
    rcases apply_spec digest applies with ⟨state, reason, -, rfl, -⟩ |
      ⟨snapshot, cooldown, rfl, -⟩ | ⟨snapshot, id, -, -, -, consumed, -, rfl⟩
    · exact stop_kept store owner state reason _
    · apply kept_update
      intro row _ picked
      have here := (heldBy_iff.mp picked).1
      exact ⟨rfl, Nat.le_refl _, .inr ⟨held, member, by rw [here, same], rfl⟩, .inl rfl⟩
    · apply kept_update
      intro row _ picked
      obtain ⟨here, -, live⟩ := heldBy_iff.mp picked
      exact ⟨rfl, Nat.le_refl _, .inl rfl,
        .inr ⟨⟨by rw [here, same], consumed⟩, (WaitRow.live_iff.mp live).1⟩⟩

end Ages

/-! ## What a step leaves -/

section Steps

variable (digest : Snapshot → String)

/-- A step keeps the rows, and at most adds one claim of a row or one fresh wait. -/
structure Follows (system : System) (event : Event) (after : System) : Prop where
  claims : after.claimed = system.claimed ∨
    ∃ held, after.claimed = system.claimed ++ [held] ∧ held.owner.row ∈ system.store.waits
  minted : system.minted ⊆ after.minted
  rows : ∃ kept, Kept system.claimed (Wakes digest system event) system.store.waits kept ∧
    (after.store.waits = kept ∨
      ∃ row, after.store.waits = kept ++ [row] ∧ row.id ∈ after.minted ∧
        row.id ∉ system.minted ∧ row.signalSequence = 0 ∧ row.observedSignalSequence = 0)

variable {digest}

theorem Follows.of_kept {system : System} {event : Event} {store : Store}
    (kept : Kept system.claimed (Wakes digest system event) system.store.waits store.waits) :
    Follows digest system event { system with store := store } :=
  ⟨.inl rfl, fun _ member => member, _, kept, .inl rfl⟩

theorem arm_spec {store after : Store} {id task lease : String} {target : BoundPr}
    {baseline : String} {dependency : Snapshot} {clock : Int}
    (arms : store.arm id task lease target baseline dependency clock = some after) :
    after = store ∨ ∃ row, after.waits = store.waits ++ [row] ∧ row.id = id ∧
      row.signalSequence = 0 ∧ row.observedSignalSequence = 0 := by
  unfold Store.arm at arms
  split at arms
  · cases arms
  · split at arms
    · cases arms
      exact .inl rfl
    · split at arms
      · cases arms
      · cases arms
        exact .inr ⟨_, rfl, rfl, rfl, rfl⟩

theorem step_follows (system : System) (event : Event) :
    Follows digest system event (system.step digest event) := by
  have still : Follows digest system event system :=
    Follows.of_kept (Kept.refl system.store.waits)
  cases event with
  | claim candidate id visit =>
      rw [System.step]
      split
      · exact still
      · rename_i store claims
        exact Follows.of_kept (claim_kept claims).1
      · rename_i store held claims
        obtain ⟨kept, reads⟩ := claim_kept claims
        exact ⟨.inr ⟨held, rfl, reads held rfl⟩, fun _ member => member, _, kept, .inl rfl⟩
  | finish index result visit =>
      rw [System.step]
      split
      · exact still
      · rename_i held found
        split
        · exact still
        · rename_i store disposition finishes
          have kept := finish_kept digest (List.mem_of_getElem? found) finishes
          refine Follows.of_kept ⟨kept.ids, fun new member => ?_⟩
          obtain ⟨old, earlier, ages⟩ := kept.ages new member
          refine ⟨old, earlier, ages.id, ages.signals, ages.observed, ages.consumed.imp_right ?_⟩
          rintro ⟨⟨same, rfl⟩, live⟩
          exact ⟨⟨index, result, visit, held, store, rfl, found, same, finishes⟩, live⟩
  | record completion clock =>
      have same : (system.store.record completion clock).waits = system.store.waits := by
        unfold Store.record
        split
        · rfl
        · rfl
      apply Follows.of_kept
      rw [same]
      exact Kept.refl _
  | deliver completion free readAt clock =>
      exact Follows.of_kept (one_kept system.store completion free readAt clock)
  | postpone completion clock => exact Follows.of_kept (Kept.refl system.store.waits)
  | collect gone => exact Follows.of_kept (Kept.refl system.store.waits)
  | lifecycle tasks cancelled clock =>
      exact Follows.of_kept (lifecycle_kept system.store tasks cancelled clock)
  | arm id task lease target dependency clock =>
      rw [System.step]
      split
      · exact still
      · rename_i fresh
        split
        · exact still
        · rename_i store arms
          have minted : system.minted ⊆ system.minted ++ [id] := List.subset_append_left _ _
          rcases arm_spec arms with rfl | ⟨row, waits, rfl, signals, observed⟩
          · exact ⟨.inl rfl, minted, _, Kept.refl _, .inl rfl⟩
          · exact ⟨.inl rfl, minted, _, Kept.refl _, .inr ⟨row, waits,
              List.mem_append_right _ (List.mem_singleton_self _), fresh, signals, observed⟩⟩

end Steps

end Agentsfleet.Waits
