import Agentsfleet.Library.Growth
import Agentsfleet.Task.Lifecycle

/-!
# What a task's generation fences

Over any run of the transactions: a finished task stays finished, every change of status
but an issue's start moves the generation on, and what was stamped with an earlier one
finds nothing to do.
-/

set_option autoImplicit false

namespace Agentsfleet.Task.Lifecycle

open Agentsfleet.Core
open Agentsfleet.Library
open Agentsfleet.Library.Table (Grows)
open Agentsfleet.Waits (Claimed Snapshot Store TaskRow Visit WaitRow)

/-! ## Keys -/

theorem split_unique {front rest other others : List Char} (here : ':' ∉ rest)
    (there : ':' ∉ others) (same : front ++ ':' :: rest = other ++ ':' :: others) :
    front = other ∧ rest = others := by
  rcases List.append_eq_append_iff.mp same with ⟨between, rfl, tail⟩ | ⟨between, rfl, tail⟩
  · cases between with
    | nil => exact ⟨(List.append_nil front).symm, (List.cons.inj tail).2⟩
    | cons first more =>
        rw [List.cons_append] at tail
        have inside : ':' ∈ rest := by
          rw [(List.cons.inj tail).2]
          exact List.mem_append_right _ List.mem_cons_self
        exact absurd inside here
  · cases between with
    | nil => exact ⟨List.append_nil other, (List.cons.inj tail).2.symm⟩
    | cons first more =>
        rw [List.cons_append] at tail
        have inside : ':' ∈ others := by
          rw [(List.cons.inj tail).2]
          exact List.mem_append_right _ List.mem_cons_self
        exact absurd inside there

theorem toString_digits (count : Nat) : (toString count).toList = Nat.toDigits 10 count := by
  rw [Nat.toString_eq_repr, Nat.repr, String.toList_ofList]

theorem colon_not_mem (count : Nat) : ':' ∉ Nat.toDigits 10 count := fun member =>
  absurd (Nat.isDigit_of_mem_toDigits (by decide) (by decide) member) (by decide)

theorem Continuation.key_inj {c other : Continuation} (same : c.key = other.key) :
    c.task = other.task ∧ c.generation = other.generation := by
  have chars := congrArg String.toList same
  rw [key, key, String.toList_append, String.toList_append, String.toList_append,
    String.toList_append, toString_digits, toString_digits, List.append_assoc,
    List.append_assoc] at chars
  obtain ⟨tasks, digits⟩ := split_unique (colon_not_mem _) (colon_not_mem _) chars
  have values := congrArg (fun digits => Nat.ofDigitChars 10 digits 0) digits
  simp only [Nat.ofDigitChars_toDigits (b := 10) (by decide) (by decide)] at values
  exact ⟨String.toList_inj.mp tasks, values⟩

theorem counter_eq {column : Int} {count : Nat} (read : counter column = some count) :
    column = count := by
  unfold counter at read
  split at read
  · cases read
    omega
  · cases read

theorem Continuation.after_spec {fleet workspace task : String} {generation : Int}
    {c : Continuation} (prepared : Continuation.after fleet workspace task generation = some c) :
    c.fleet = fleet ∧ c.workspace = workspace ∧ c.task = task ∧
      (c.generation : Int) = generation + 1 := by
  obtain ⟨count, read, rfl⟩ := Option.map_eq_some_iff.mp prepared
  exact ⟨rfl, rfl, rfl, by rw [counter_eq read]; rfl⟩

/-! ## Rows -/

/-- `terminal_at` is set exactly in the states nothing reopens. -/
def Ended (row : TaskRow) : Prop := row.terminalAt.isSome = row.status.isTerminal

/-- What a transaction may do to a task's row: only an issue `may` start it as it is, and
where it is ready anew its new generation is one it `woke`. -/
structure Moves (may : Prop) (woke : String → Int → Prop) (old new : TaskRow) : Prop where
  id : new.id = old.id
  fleet : new.fleet = old.fleet
  workspace : new.workspace = old.workspace
  older : old.generation ≤ new.generation
  final : Ended old → old.status.isTerminal = true → new.status = old.status
  fenced : new.status = old.status ∨ old.generation < new.generation ∨
    may ∧ old.status = .ready ∧ new.status = .running
  ready : new.status = .ready →
    old.status = .ready ∧ new.generation = old.generation ∨ woke old.id new.generation
  ended : Ended old → Ended new

structure Born (woke : String → Int → Prop) (row : TaskRow) : Prop where
  ended : Ended row
  ready : row.status = .ready → woke row.id row.generation

section Rows

variable {may : Prop} {woke : String → Int → Prop}

theorem Born.moved {old new : TaskRow} (born : Born woke old) (moves : Moves may woke old new) :
    Born woke new := by
  refine ⟨moves.ended born.ended, fun ready => ?_⟩
  rw [moves.id]
  rcases moves.ready ready with ⟨before, same⟩ | woken
  · rw [same]
    exact born.ready before
  · exact woken

namespace Moves

theorem refl (row : TaskRow) : Moves may woke row row :=
  ⟨rfl, rfl, rfl, Int.le_refl _, fun _ _ => rfl, .inl rfl, fun ready => .inl ⟨ready, rfl⟩,
    fun ended => ended⟩

theorem trans {first second third : TaskRow} (left : Moves may woke first second)
    (right : Moves may woke second third) : Moves may woke first third := by
  refine ⟨right.id.trans left.id, right.fleet.trans left.fleet,
    right.workspace.trans left.workspace, Int.le_trans left.older right.older,
    fun ended terminal => ?_, ?_, fun ready => ?_, right.ended ∘ left.ended⟩
  · have same := left.final ended terminal
    exact (right.final (left.ended ended) (same ▸ terminal)).trans same
  · have up := left.older
    have more := right.older
    rcases left.fenced with same | later | ⟨allowed, ready, running⟩
    · rcases right.fenced with again | later | ⟨allowed, ready, running⟩
      · exact .inl (again.trans same)
      · exact .inr (.inl (by omega))
      · exact .inr (.inr ⟨allowed, same ▸ ready, running⟩)
    · exact .inr (.inl (by omega))
    · rcases right.fenced with again | later | ⟨_, again, _⟩
      · exact .inr (.inr ⟨allowed, ready, again.trans running⟩)
      · exact .inr (.inl (by omega))
      · rw [running] at again
        cases again
  · rcases right.ready ready with ⟨before, same⟩ | woken
    · rcases left.ready before with ⟨earlier, equal⟩ | woken
      · exact .inl ⟨earlier, same.trans equal⟩
      · exact .inr (same ▸ woken)
    · exact .inr (left.id ▸ woken)

theorem of_same {old new : TaskRow} (id : new.id = old.id) (fleet : new.fleet = old.fleet)
    (workspace : new.workspace = old.workspace) (status : new.status = old.status)
    (generation : new.generation = old.generation) (terminal : new.terminalAt = old.terminalAt) :
    Moves may woke old new := by
  refine ⟨id, fleet, workspace, Int.le_of_eq generation.symm, fun _ _ => status, .inl status,
    fun ready => .inl ⟨status ▸ ready, generation⟩, fun ended => ?_⟩
  rw [Ended, status, terminal]
  exact ended

theorem of_next {old new : TaskRow} (id : new.id = old.id) (fleet : new.fleet = old.fleet)
    (workspace : new.workspace = old.workspace) (next : new.generation = old.generation + 1)
    (unfinished : old.status.isTerminal = false)
    (ready : new.status = .ready → woke old.id (old.generation + 1))
    (ended : old.terminalAt = none → Ended new) : Moves may woke old new := by
  refine ⟨id, fleet, workspace, by omega, fun _ terminal => ?_, .inr (.inl (by omega)),
    fun wakes => .inr (next ▸ ready wakes), fun before => ended ?_⟩
  · rw [unfinished] at terminal
    cases terminal
  · rw [Ended, unfinished] at before
    exact Option.not_isSome_iff_eq_none.mp (by rw [before]; exact Bool.false_ne_true)

theorem transition {row : TaskRow} (unfinished : row.status.isTerminal = false)
    {state : TaskState} (ready : state = .ready → woke row.id (row.generation + 1))
    (reason : Option String) (clock : Int) :
    Moves may woke row (row.transition state reason clock) := by
  refine of_next rfl rfl rfl rfl unfinished ready fun none => ?_
  rw [Ended, TaskRow.transition]
  cases terminal : state.isTerminal with
  | true => rfl
  | false => exact congrArg Option.isSome none

theorem controlled {row : TaskRow} (unfinished : row.status.isTerminal = false)
    {control : TaskControl} (ready : control = .resume → woke row.id (row.generation + 1))
    (goal : Goal) (clock : Int) : Moves may woke row (controlled control goal clock row) := by
  refine of_next rfl rfl rfl rfl unfinished (fun requested => ready ?_) fun none => ?_
  · cases control with
    | pause => cases requested
    | resume => rfl
    | cancel => cases requested
  · rw [Ended, Lifecycle.controlled]
    cases control with
    | pause => exact congrArg Option.isSome none
    | resume => exact congrArg Option.isSome none
    | cancel => rfl

theorem adopted {row : TaskRow} (unfinished : row.status.isTerminal = false) {eligible : Bool}
    (ready : (if eligible then .ready else row.status) = TaskState.ready →
      woke row.id (row.generation + 1))
    (goal : Goal) (clock : Int) : Moves may woke row (adopted eligible goal clock row) := by
  refine of_next rfl rfl rfl rfl unfinished ready fun none => ?_
  rw [Ended, Lifecycle.adopted]
  cases eligible with
  | true => exact congrArg Option.isSome none
  | false => exact (congrArg Option.isSome none).trans unfinished.symm

theorem steered {row : TaskRow} (unfinished : row.status.isTerminal = false)
    (ready : woke row.id (row.generation + 1)) : Moves may woke row (steered true row) :=
  of_next rfl rfl rfl rfl unfinished (fun _ => ready) fun none => congrArg Option.isSome none

theorem counted (row : TaskRow) : Moves may woke row (Lifecycle.steered false row) :=
  of_same rfl rfl rfl rfl (Int.add_zero _) rfl

theorem account (model running clock : Int) (row : TaskRow) :
    Moves may woke row (account model running clock row) := by
  rw [Lifecycle.account]
  cases stops : (row.terminalAt.isNone &&
      (decide (row.maxModelNanos - row.reservedModelNanos ≤ row.usedModelNanos + model) ||
        decide (row.maxRunningNanos ≤ row.usedRunningNanos + running) ||
        decide (row.expiresAt ≤ clock))) with
  | false => exact of_same rfl rfl rfl rfl (Int.add_zero _) rfl
  | true =>
      have open_ : row.terminalAt.isNone = true := (Bool.and_eq_true_iff.mp stops).1
      refine ⟨rfl, rfl, rfl, Int.le_add_of_nonneg_right (by decide), fun ended terminal => ?_,
        .inr (.inl (Int.lt_succ _)), nofun, fun _ => rfl⟩
      rw [Ended, terminal, Option.isSome_iff_ne_none] at ended
      exact absurd (Option.isNone_iff_eq_none.mp open_) ended

theorem started {row : TaskRow} (runs : row.status = .ready ∨ row.status = .running) :
    Moves True woke row (start row) := by
  have unfinished : row.status.isTerminal = false := by
    rcases runs with ready | running
    · rw [ready]
      rfl
    · rw [running]
      rfl
  refine ⟨rfl, rfl, rfl, Int.le_refl _, fun _ terminal => ?_, ?_, nofun, fun ended => ?_⟩
  · rw [unfinished] at terminal
    cases terminal
  · rcases runs with ready | running
    · exact .inr (.inr ⟨trivial, ready, rfl⟩)
    · exact .inl running.symm
  · rw [Ended, unfinished] at ended
    exact ended

end Moves

end Rows

/-! ## Admissions -/

structure Stamped (tasks : List TaskRow) (row : Admission) : Prop where
  key : ∀ key, row.continuation = some key →
    ∃ held ∈ tasks, ∃ c : Continuation, key = c.key ∧ c.task = held.id ∧
      (c.generation : Int) ≤ held.generation
  bound : ∀ task, row.task = some task →
    ∃ held ∈ tasks, held.id = task ∧ row.fleet = held.fleet ∧ row.workspace = held.workspace ∧
      ∃ generation, row.taskGeneration = some generation ∧ generation ≤ held.generation

theorem Stamped.grows {may : Prop} {woke : String → Int → Prop} {before after : List TaskRow}
    {row : Admission} (stamped : Stamped before row)
    (grows : Grows (Moves may woke) (Born woke) TaskRow.id before after) : Stamped after row := by
  constructor
  · intro key named
    obtain ⟨held, member, c, same, task, reached⟩ := stamped.key key named
    obtain ⟨new, inside, moved⟩ := grows.forward member
    exact ⟨new, inside, c, same, task.trans moved.id.symm, Int.le_trans reached moved.older⟩
  · intro task bound
    obtain ⟨held, member, id, fleet, workspace, generation, stamp, reached⟩ :=
      stamped.bound task bound
    obtain ⟨new, inside, moved⟩ := grows.forward member
    exact ⟨new, inside, moved.id.trans id, fleet.trans moved.fleet.symm,
      workspace.trans moved.workspace.symm, generation, stamp, Int.le_trans reached moved.older⟩

section Statements

variable {tasks : List TaskRow} {admissions : List Admission}

theorem settled_stamped {here : Admission → Bool}
    (stamped : ∀ row ∈ admissions, Stamped tasks row) :
    ∀ row ∈ Table.update here (fun row => { row with settled := true }) admissions,
      Stamped tasks row :=
  Table.forall_update (Stamped tasks) (fun _ old => ⟨old.key, old.bound⟩) stamped

theorem bind_ids (task : TaskRow) (id : String) (admissions : List Admission) :
    (bind task id admissions).map Admission.id = admissions.map Admission.id := by
  apply Table.column_update
  intro row
  rfl

theorem settled_ids (here : Admission → Bool) (admissions : List Admission) :
    (Table.update here (fun row => { row with settled := true }) admissions).map Admission.id =
      admissions.map Admission.id := by
  apply Table.column_update
  intro row
  rfl

theorem bind_stamped {task : TaskRow} (held : task ∈ tasks) (id : String)
    (stamped : ∀ row ∈ admissions, Stamped tasks row) :
    ∀ row ∈ bind task id admissions, Stamped tasks row := by
  intro row member
  obtain ⟨old, earlier, rfl⟩ := Table.mem_update.mp member
  by_cases binds : old.binds task id = true
  · rw [if_pos binds]
    obtain ⟨-, -, fleet, workspace⟩ := of_decide_eq_true binds
    refine ⟨(stamped old earlier).key, fun named bound => ?_⟩
    cases bound
    exact ⟨task, held, rfl, fleet, workspace, task.generation, rfl, Int.le_refl _⟩
  · rw [if_neg binds]
    exact stamped old earlier

theorem stage_spec {c : Continuation} {id admitted : String} {capacity : Capacity}
    {after : List Admission} (stages : stage c id capacity admissions = .ok (after, admitted)) :
    (∃ earlier ∈ admissions, earlier.continuation = some c.key ∧ after = admissions ∧
      admitted = earlier.id) ∨
    (∀ row ∈ admissions, row.continuation ≠ some c.key) ∧ (∀ row ∈ admissions, row.id ≠ id) ∧
      after = admissions ++ [c.row id] ∧ admitted = id := by
  unfold stage at stages
  split at stages
  · cases stages
  · cases stages
  · split at stages
    · rename_i earlier found
      cases stages
      have named := List.find?_some found
      exact .inl ⟨earlier, List.mem_of_find?_eq_some found, of_decide_eq_true named, rfl, rfl⟩
    · rename_i absent
      split at stages
      · cases stages
      · rename_i unused
        cases stages
        refine .inr ⟨fun row member same => ?_, fun row member same => ?_, rfl, rfl⟩
        · exact of_decide_eq_false (Bool.not_eq_true _ ▸ List.find?_eq_none.mp absent row member)
            same
        · exact unused (List.any_eq_true.mpr ⟨row, member, decide_eq_true same⟩)

theorem retire_concat (task : TaskRow) (leases : List Lease) (c : Continuation) (id : String)
    (admissions : List Admission) :
    retire task leases (admissions ++ [c.row id]) =
      retire task leases admissions ++ [c.row id] := by
  rw [retire, Table.update, List.map_append]
  rfl

theorem stage_retire (task : TaskRow) (leases : List Lease) (c : Continuation) (id : String)
    (capacity : Capacity) (admissions : List Admission) :
    stage c id capacity (retire task leases admissions) =
      (stage c id capacity admissions).map fun staged =>
        (retire task leases staged.1, staged.2) := by
  have keys : (retire task leases admissions).find?
        (fun row => decide (row.continuation = some c.key)) =
      (admissions.find? fun row => decide (row.continuation = some c.key)).map fun row =>
        if row.retires task leases then { row with settled := true } else row := by
    apply Table.find?_update
    intro row
    rfl
  have ids : ((retire task leases admissions).any fun row => decide (row.id = id)) =
      admissions.any fun row => decide (row.id = id) := by
    apply Table.any_update
    intro row
    rfl
  unfold stage
  cases capacity with
  | failed => rfl
  | spent => rfl
  | granted =>
      dsimp only
      rw [keys, ids]
      cases admissions.find? fun row => decide (row.continuation = some c.key) with
      | some earlier =>
          dsimp only [Option.map_some, Except.map]
          split
          · rfl
          · rfl
      | none =>
          dsimp only [Option.map_none]
          split
          · rfl
          · rw [Except.map, retire_concat]

def Admission.live (leases : List Lease) (task : String) (row : Admission) : Bool :=
  row.continuation.isSome && !row.settled && decide (row.task = some task) && !issued leases row.id

theorem Admission.live_iff {leases : List Lease} {task : String} {row : Admission} :
    row.live leases task = true ↔ row.continuation.isSome = true ∧ row.settled = false ∧
      row.task = some task ∧ issued leases row.id = false := by
  rw [live, Bool.and_eq_true, Bool.and_eq_true, Bool.and_eq_true, decide_eq_true_eq,
    Bool.not_eq_true', Bool.not_eq_true', and_assoc, and_assoc]

theorem bind_stage {task : TaskRow} {c : Continuation} {id admitted : String}
    {capacity : Capacity} {after : List Admission} {leases : List Lease}
    (quiet : ∀ row ∈ admissions, row.live leases task.id = false)
    (unnamed : ∀ row ∈ admissions, row.continuation ≠ some c.key)
    (leased : ∀ lease ∈ leases, lease.admission ∈ admissions.map Admission.id)
    (fleet : c.fleet = task.fleet) (workspace : c.workspace = task.workspace)
    (stages : stage c id capacity admissions = .ok (after, admitted)) :
    (bind task admitted after).filter (fun row => row.live leases task.id) =
      [{ c.row id with task := some task.id, taskGeneration := some task.generation }] := by
  rcases stage_spec stages with ⟨earlier, member, named, -, -⟩ | ⟨-, unused, rfl, rfl⟩
  · exact absurd named (unnamed earlier member)
  · have front : bind task admitted admissions = admissions := by
      apply Table.update_none
      intro row member
      exact decide_eq_false fun binds => unused row member binds.1
    have last : bind task admitted [c.row admitted] =
        [{ c.row admitted with task := some task.id, taskGeneration := some task.generation }] := by
      have binds : (c.row admitted).binds task admitted = true :=
        decide_eq_true ⟨rfl, rfl, fleet, workspace⟩
      rw [bind, Table.update, List.map_singleton, if_pos binds]
    have split : bind task admitted (admissions ++ [c.row admitted]) =
        bind task admitted admissions ++ bind task admitted [c.row admitted] := List.map_append
    have none_before : admissions.filter (fun row => row.live leases task.id) = [] := by
      rw [List.filter_eq_nil_iff]
      intro row member live
      rw [quiet row member] at live
      cases live
    have unissued : issued leases admitted = false := by
      rw [issued, List.any_eq_false]
      intro lease member here
      obtain ⟨row, inside, same⟩ := List.mem_map.mp (leased lease member)
      exact unused row inside (same.trans (of_decide_eq_true here))
    have live : ({ c.row admitted with
        task := some task.id, taskGeneration := some task.generation } : Admission).live leases
          task.id = true :=
      Admission.live_iff.mpr ⟨rfl, rfl, rfl, unissued⟩
    rw [split, front, last, List.filter_append, none_before, List.nil_append,
      List.filter_cons_of_pos live, List.filter_nil]

end Statements

/-! ## What a transaction leaves -/

structure Same (old new : WaitRow) : Prop where
  id : new.id = old.id
  task : new.task = old.task
  fleet : new.fleet = old.fleet
  workspace : new.workspace = old.workspace
  taskGeneration : new.taskGeneration = old.taskGeneration

theorem Same.refl (row : WaitRow) : Same row row := ⟨rfl, rfl, rfl, rfl, rfl⟩

theorem Same.trans {first second third : WaitRow} (left : Same first second)
    (right : Same second third) : Same first third :=
  ⟨right.id.trans left.id, right.task.trans left.task, right.fleet.trans left.fleet,
    right.workspace.trans left.workspace, right.taskGeneration.trans left.taskGeneration⟩

namespace Tables

def live (t : Tables) (task : String) : List Admission :=
  t.admissions.filter fun row => row.live t.leases task

def Woken (t : Tables) (task : String) (generation : Int) : Prop :=
  ∃ c : Continuation, c.task = task ∧ (c.generation : Int) = generation ∧
    ∃ row, t.live task = [row] ∧ row.continuation = some c.key ∧
      row.taskGeneration = some generation

structure Sound (t : Tables) : Prop where
  tasks : (t.store.tasks.map TaskRow.id).Nodup
  waits : (t.store.waits.map WaitRow.id).Nodup
  ended : ∀ row ∈ t.store.tasks, Ended row
  stamped : ∀ row ∈ t.admissions, Stamped t.store.tasks row
  leased : ∀ lease ∈ t.leases, lease.admission ∈ t.admissions.map Admission.id

end Tables

structure Leaves (may : Prop) (woke : String → Int → Prop) (t after : Tables) : Prop where
  tasks : Grows (Moves may woke) (Born woke) TaskRow.id t.store.tasks after.store.tasks
  waits : Grows Same (fun _ => True) WaitRow.id t.store.waits after.store.waits
  stamped : (∀ row ∈ t.admissions, Stamped t.store.tasks row) →
    ∀ row ∈ after.admissions, Stamped after.store.tasks row
  leased : (∀ lease ∈ t.leases, lease.admission ∈ t.admissions.map Admission.id) →
    ∀ lease ∈ after.leases, lease.admission ∈ after.admissions.map Admission.id

section Transactions

variable {may : Prop} {woke : String → Int → Prop} {t : Tables}

namespace Leaves

theorem refl (t : Tables) : Leaves may woke t t :=
  ⟨Grows.refl Moves.refl, Grows.refl Same.refl, fun stamped => stamped, fun leased => leased⟩

theorem trans {middle after : Tables} (first : Leaves may woke t middle)
    (second : Leaves may woke middle after) : Leaves may woke t after :=
  ⟨first.tasks.trans (fun _ _ moved => moved.id) second.tasks (fun _ _ _ => Moves.trans)
      fun _ _ => Born.moved,
    first.waits.trans (fun _ _ same => same.id) second.waits (fun _ _ _ => Same.trans)
      fun _ _ _ _ => trivial,
    fun stamped => second.stamped (first.stamped stamped),
    fun leased => second.leased (first.leased leased)⟩

theorem imp {other : String → Int → Prop} {after : Tables} (leaves : Leaves may woke t after)
    (wakes : ∀ task generation, woke task generation → other task generation) :
    Leaves may other t after :=
  ⟨leaves.tasks.imp (fun _ _ moved => ⟨moved.id, moved.fleet, moved.workspace, moved.older,
      moved.final, moved.fenced, fun ready => (moved.ready ready).imp_right (wakes _ _),
      moved.ended⟩) fun _ born => ⟨born.ended, fun ready => wakes _ _ (born.ready ready)⟩,
    leaves.waits, leaves.stamped, leaves.leased⟩

theorem sound {after : Tables} (leaves : Leaves may woke t after) (before : t.Sound) :
    after.Sound := by
  refine ⟨leaves.tasks.nodup (fun _ _ moved => moved.id) before.tasks,
    leaves.waits.nodup (fun _ _ same => same.id) before.waits, fun row member => ?_,
    leaves.stamped before.stamped, leaves.leased before.leased⟩
  rcases leaves.tasks.backward member with ⟨old, held, moved⟩ | ⟨-, born⟩
  · exact moved.ended (before.ended old held)
  · exact born.ended

end Leaves

theorem Tables.find_spec {fleet workspace task : String} {row : TaskRow}
    (found : t.find fleet workspace task = some row) :
    row ∈ t.store.tasks ∧ row.id = task ∧ row.fleet = fleet ∧ row.workspace = workspace := by
  have picked := List.find?_some found
  exact ⟨List.mem_of_find?_eq_some found, of_decide_eq_true picked⟩

theorem update_grows {tasks : List TaskRow} (apart : (tasks.map TaskRow.id).Nodup)
    {row : TaskRow} {change : TaskRow → TaskRow} (held : row ∈ tasks)
    (moves : Moves may woke row (change row)) :
    Grows (Moves may woke) (Born woke) TaskRow.id tasks
      (Table.update (fun other => decide (other.id = row.id)) change tasks) := by
  apply Grows.of_update Moves.refl
  intro other member here
  have same : other = row := List.inj_on_of_nodup_map apart member held (of_decide_eq_true here)
  exact same ▸ moves

theorem update_mem {tasks : List TaskRow} {row : TaskRow} {change : TaskRow → TaskRow}
    (held : row ∈ tasks) :
    change row ∈ Table.update (fun other => decide (other.id = row.id)) change tasks :=
  Table.mem_update.mpr ⟨row, held, (if_pos (decide_eq_true rfl)).symm⟩

section Held

variable (sound : t.Sound) {row : TaskRow} {change : TaskRow → TaskRow}
  (held : row ∈ t.store.tasks) (moves : Moves may woke row (change row))

include sound held moves

theorem write_leaves : Leaves may woke t (t.write row.id change) :=
  have grows := update_grows sound.tasks held moves
  ⟨grows, Grows.refl Same.refl, fun stamped other member => (stamped other member).grows grows,
    fun leased => leased⟩

theorem move_leaves (clock : Int) : Leaves may woke t (t.move row change clock) := by
  have grows := update_grows sound.tasks held moves
  refine ⟨grows, Grows.of_update Same.refl fun wait _ _ => ⟨rfl, rfl, rfl, rfl, rfl⟩,
    fun stamped => ?_, fun leased => ?_⟩
  · exact settled_stamped fun other member => (stamped other member).grows grows
  · rw [Tables.move, retire, settled_ids]
    exact leased

end Held

theorem queue_leaves {after : Tables} {row : TaskRow} (held : row ∈ t.store.tasks)
    {c : Continuation} (task : c.task = row.id) (reached : (c.generation : Int) ≤ row.generation)
    {id : String} {capacity : Capacity} (queues : t.queue row c id capacity = .ok after) :
    Leaves may woke t after := by
  unfold Tables.queue at queues
  split at queues
  · cases queues
  · rename_i admissions admitted staged
    cases queues
    refine ⟨Grows.refl Moves.refl, Grows.refl Same.refl, fun stamped => ?_,
      fun leased lease here => ?_⟩
    · apply bind_stamped held
      rcases stage_spec staged with ⟨-, -, -, rfl, -⟩ | ⟨-, -, rfl, -⟩
      · exact stamped
      · intro other member
        rcases List.mem_append.mp member with earlier | later
        · exact stamped other earlier
        · rw [List.mem_singleton] at later
          subst later
          refine ⟨fun key named => ?_, fun task bound => ?_⟩
          · cases named
            exact ⟨row, held, c, rfl, task, reached⟩
          · cases bound
    · have before := leased lease here
      change lease.admission ∈ (bind row admitted admissions).map Admission.id
      rw [bind_ids]
      rcases stage_spec staged with ⟨-, -, -, rfl, -⟩ | ⟨-, -, rfl, -⟩
      · exact before
      · rw [List.map_append]
        exact List.mem_append_left _ before

structure Continuation.Next (c : Continuation) (row : TaskRow) : Prop where
  fleet : c.fleet = row.fleet
  workspace : c.workspace = row.workspace
  task : c.task = row.id
  generation : (c.generation : Int) = row.generation + 1

structure Steps (old new : TaskRow) : Prop where
  id : new.id = old.id
  fleet : new.fleet = old.fleet
  workspace : new.workspace = old.workspace
  next : new.generation = old.generation + 1

theorem unnamed_of_next (sound : t.Sound) {row : TaskRow} (held : row ∈ t.store.tasks)
    {c : Continuation} (next : c.Next row) :
    ∀ other ∈ t.admissions, other.continuation ≠ some c.key := by
  intro other member named
  obtain ⟨task, inside, earlier, same, named_, reached⟩ :=
    (sound.stamped other member).key c.key named
  obtain ⟨tasks, generations⟩ := Continuation.key_inj same
  have here : task = row := List.inj_on_of_nodup_map sound.tasks inside held
    (named_.symm.trans (tasks.symm.trans next.task))
  have later := next.generation
  rw [here] at reached
  omega

theorem retired_quiet (sound : t.Sound) {row new : TaskRow} (held : row ∈ t.store.tasks)
    (steps : Steps row new) :
    ∀ other ∈ retire new t.leases t.admissions, other.live t.leases new.id = false := by
  intro other member
  obtain ⟨old, earlier, rfl⟩ := Table.mem_update.mp member
  by_cases retires : old.retires new t.leases = true
  · rw [if_pos retires]
    exact Bool.eq_false_iff.mpr fun live => Bool.noConfusion (Admission.live_iff.mp live).2.1
  · rw [if_neg retires]
    refine Bool.eq_false_iff.mpr fun live => retires ?_
    obtain ⟨continues, unsettled, task, unissued⟩ := Admission.live_iff.mp live
    obtain ⟨owner, inside, id, fleet, workspace, generation, stamp, reached⟩ :=
      (sound.stamped old earlier).bound new.id task
    have here : owner = row :=
      List.inj_on_of_nodup_map sound.tasks inside held (id.trans steps.id)
    subst here
    have later := steps.next
    have stale : old.taskGeneration ≠ some new.generation := by
      rw [stamp]
      intro same
      have equal := Option.some.inj same
      omega
    rw [Admission.retires, decide_eq_true ⟨task, fleet.trans steps.fleet.symm,
      workspace.trans steps.workspace.symm⟩, unsettled, continues, decide_eq_true stale, unissued]
    rfl

theorem stage_woken {after : Tables} (sound : t.Sound) {row new : TaskRow}
    (held : row ∈ t.store.tasks) (steps : Steps row new) {c : Continuation} (next : c.Next row)
    {id admitted : String} {capacity : Capacity} {staged : List Admission}
    (stages : stage c id capacity (retire new t.leases t.admissions) = .ok (staged, admitted))
    (leases : after.leases = t.leases) (bound : after.admissions = bind new admitted staged) :
    after.Woken row.id (row.generation + 1) := by
  have unnamed : ∀ other ∈ retire new t.leases t.admissions, other.continuation ≠ some c.key := by
    intro other member
    obtain ⟨old, earlier, rfl⟩ := Table.mem_update.mp member
    have before := unnamed_of_next sound held next old earlier
    split
    · exact before
    · exact before
  have leased : ∀ lease ∈ t.leases, lease.admission ∈
      (retire new t.leases t.admissions).map Admission.id := by
    rw [retire, settled_ids]
    exact sound.leased
  have alone := bind_stage (retired_quiet sound held steps) unnamed leased
    (next.fleet.trans steps.fleet.symm) (next.workspace.trans steps.workspace.symm) stages
  rw [steps.id, ← leases, ← bound] at alone
  exact ⟨c, next.task, next.generation, _, alone, rfl, congrArg some steps.next⟩

section Wake

variable {after : Tables} (sound : t.Sound) {row : TaskRow} (held : row ∈ t.store.tasks)
  {change : TaskRow → TaskRow} (steps : Steps row (change row)) {c : Continuation} {clock : Int}
  {id : String} {capacity : Capacity}
  (queues : (t.move row change clock).queue (change row) c id capacity = .ok after)

include sound held steps queues

theorem queue_woken (next : c.Next row) : after.Woken row.id (row.generation + 1) := by
  unfold Tables.queue at queues
  split at queues
  · cases queues
  · rename_i staged admitted stages
    cases queues
    exact stage_woken sound held steps next stages rfl rfl

theorem wake_leaves (task : c.task = row.id) (reached : (c.generation : Int) ≤ row.generation + 1)
    (moves : Moves may woke row (change row)) : Leaves may woke t after :=
  (move_leaves sound held moves clock).trans
    (queue_leaves (update_mem held) (task.trans steps.id.symm) (steps.next ▸ reached) queues)

end Wake

theorem continueReady_eq (t : Tables) (row : TaskRow) (change : TaskRow → TaskRow) (clock : Int)
    (c : Continuation) (id : String) (capacity : Capacity) :
    t.continueReady row change clock c id capacity =
      (t.move row change clock).queue (change row) c id capacity := by
  have commutes := stage_retire (change row) t.leases c id capacity t.admissions
  rw [Tables.continueReady, Tables.queue, Tables.move, commutes]
  cases stage c id capacity t.admissions with
  | error fault => rfl
  | ok staged => rfl

end Transactions

end Agentsfleet.Task.Lifecycle
