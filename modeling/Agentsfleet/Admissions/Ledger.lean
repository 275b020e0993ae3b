import Agentsfleet.Core.Id
import Agentsfleet.Library.Run
import Agentsfleet.Library.Table

/-!
# The admission ledger

`admit` is five statements of one transaction: whether the key is repeated on
its fleet, the installed policy, which takes the fleet's row, the fleet's
budget, the insert, and the commit.  Any number of calls stand between their
statements, and a call ends early at any of them.  What the commits of other
writers do to admissions and tasks is an event of its own.
-/

set_option autoImplicit false

namespace Agentsfleet.Admissions

open Agentsfleet.Core
open Agentsfleet.Library

/-! ## What a producer asks for -/

inductive Producer where
  | steer
  | webhook
  | webhookApp
  | scheduleFire
  | gateContinuation
  | taskContinuation
  | slackMention
deriving DecidableEq

inductive Key where
  | repeated (key : String)
  | unrepeatable
deriving DecidableEq

inductive Reply where
  | none
  | to (connector address : String)
  | inherit (eventId : String)
deriving DecidableEq

structure Admission where
  producer : Producer
  key : Key
  fleet : String
  workspace : String
  actor : String
  eventType : String
  requestJson : String
  reply : Reply
deriving DecidableEq

/-- The parts a payload digest absorbs, in order. -/
def Admission.payload (admission : Admission) : List String :=
  [admission.actor, admission.eventType, admission.workspace, admission.requestJson] ++
    match admission.reply with
    | .none => []
    | .to connector address => ["reply_to", connector, address]
    | .inherit eventId => ["reply_inherit", eventId]

/-! ## Rows -/

structure Repeated where
  id : String
  digest : String
  fleet : String
  createdAt : Int
deriving DecidableEq

/-- A row of `fleet.admissions`. -/
structure Row where
  id : String
  fleet : String
  workspace : String
  producer : Producer
  producerKey : String
  payloadDigest : String
  actor : String
  eventType : String
  requestJson : String
  reply : Option (String × String)
  createdAt : Int
  settled : Bool
  taskId : Option String
  taskGeneration : Option Nat
deriving DecidableEq

def Row.key (row : Row) : Producer × String := (row.producer, row.producerKey)

def Row.stored (row : Row) : Repeated := ⟨row.id, row.payloadDigest, row.fleet, row.createdAt⟩

/-- The columns of a row of `fleet.tasks` a budget reads. -/
structure Task where
  fleet : String
  workspace : String
  generation : Nat
  terminal : Bool
deriving DecidableEq

def Row.current (row : Row) (tasks : String → Option Task) : Bool :=
  match row.taskId.bind tasks with
  | none => false
  | some task =>
      decide (task.fleet = row.fleet) && decide (task.workspace = row.workspace) &&
        decide (some task.generation = row.taskGeneration) && !task.terminal

def Row.outstanding (row : Row) (tasks : String → Option Task) (fleet : String) : Bool :=
  decide (row.fleet = fleet) && !row.settled &&
    (decide (row.producer ≠ .taskContinuation) || row.taskGeneration.isNone || row.current tasks)

/-! ## Calls -/

inductive BudgetScope where
  | fleet
  | deployment
deriving DecidableEq

structure Budgets where
  fleetBacklog : UInt64
  deploymentBacklog : UInt64

def Budgets.limit (budgets : Budgets) : BudgetScope → UInt64
  | .fleet => budgets.fleetBacklog
  | .deployment => budgets.deploymentBacklog

inductive AdmitError where
  | policy
  | overBudget (scope : BudgetScope) (limit : UInt64)
  | failed
deriving DecidableEq

structure Admitted where
  replayed : Bool
  stored : Repeated
deriving DecidableEq

/-- Where a call stands, named by the statement it runs next. -/
inductive Phase where
  | repeated
  | policy
  | budget
  | insert
  /-- What the insert answered, and the row it made of its own. -/
  | commit (stored : Repeated) (row : Option Row)
  | ended (answer : Except AdmitError Admitted)
deriving DecidableEq

/-- One call of `admit`: the row id minted for it, the deployment's estimate and
the transaction's instant. -/
structure Call where
  rowId : String
  admission : Admission
  estimate : UInt64
  now : Int
  locked : Bool
  phase : Phase
deriving DecidableEq

def Call.key (call : Call) : Producer × String :=
  (call.admission.producer,
    match call.admission.key with
    | .repeated key => key
    | .unrepeatable => call.rowId)

/-- The call's transaction is open and holds its fleet's row. -/
def Call.holds (call : Call) : Bool :=
  call.locked &&
    match call.phase with
    | .ended _ => false
    | _ => true

def Call.pending (call : Call) : Option Row :=
  match call.phase with
  | .commit _ row => row
  | _ => none

def Call.inserted (call : Call) : Bool :=
  match call.phase with
  | .commit _ row => row.isSome
  | .ended (.ok admitted) => !admitted.replayed
  | _ => false

def Call.answer (call : Call) : Option Admitted :=
  match call.phase with
  | .ended (.ok admitted) => some admitted
  | _ => none

structure System where
  rows : List Row
  tasks : String → Option Task
  calls : List Call

def System.start : System := ⟨[], fun _ => none, []⟩

def System.keys (s : System) : List (Producer × String) := s.rows.map Row.key

def System.outstanding (s : System) (fleet : String) : Nat :=
  s.rows.countP fun row => row.outstanding s.tasks fleet

/-! ## The statements -/

def policySemantics : String := "fleet-setup-v1"

/-- `i64::try_from(count).unwrap_or(i64::MAX)`. -/
def clamped (count : Nat) : Nat := min count (2 ^ 63 - 1)

/-- `u64::saturating_add(1)`. -/
def oneMore (count : UInt64) : Nat := min (count.toNat + 1) (2 ^ 64 - 1)

/-- `SELECT_REPEATED_ON_FLEET`. -/
def System.repeatedOnFleet (s : System) (call : Call) : Bool :=
  s.rows.any fun row => decide (row.fleet = call.admission.fleet) &&
    decide (row.workspace = call.admission.workspace) && decide (row.key = call.key)

def System.fleetHeld (s : System) (slot : Nat) (fleet : String) : Bool :=
  (List.range s.calls.length).any fun other =>
    match s.calls[other]? with
    | none => false
    | some call => decide (other ≠ slot) && call.holds && decide (call.admission.fleet = fleet)

/-- `FLEET_BUDGET`. -/
def System.exceeded (s : System) (budgets : Budgets) (call : Call) : Bool :=
  decide (clamped budgets.fleetBacklog.toNat ≤
    min (s.outstanding call.admission.fleet) (clamped (oneMore budgets.fleetBacklog))) &&
      decide (call.key ∉ s.keys)

/-- An open transaction inserted a row whose key or id this insert meets, and
has to end first. -/
def System.insertWaits (s : System) (call : Call) : Bool :=
  s.calls.any fun other =>
    match other.pending with
    | none => false
    | some row => decide (row.key = call.key) || decide (row.id = call.rowId)

def System.destination (s : System) (call : Call) : Option (String × String) :=
  match call.admission.reply with
  | .none => none
  | .to connector address => some (connector, address)
  | .inherit eventId =>
      (Uuid7.parse eventId).bind fun id =>
        (s.rows.find? fun row => decide (row.fleet = call.admission.fleet) &&
          decide (row.id = id.text)).bind Row.reply

section Statements

variable (hash : List String → String) (budgets : Budgets)

def System.fresh (s : System) (call : Call) : Row where
  id := call.rowId
  fleet := call.admission.fleet
  workspace := call.admission.workspace
  producer := call.admission.producer
  producerKey := call.key.2
  payloadDigest := hash call.admission.payload
  actor := call.admission.actor
  eventType := call.admission.eventType
  requestJson := call.admission.requestJson
  reply := s.destination call
  createdAt := call.now
  settled := false
  taskId := none
  taskGeneration := none

/-- `INSERT_ADMISSION`: past the deployment's budget only a key already there;
a conflict on the key answers the row it met. -/
def System.insertAdmission (s : System) (call : Call) : Phase :=
  match s.rows.find? fun row => decide (row.key = call.key) with
  | some row => .commit row.stored none
  | none =>
      if clamped call.estimate.toNat < clamped budgets.deploymentBacklog.toNat then
        if s.rows.any fun row => decide (row.id = call.rowId) then .ended (.error .failed)
        else .commit (s.fresh hash call).stored (some (s.fresh hash call))
      else .ended (.error (.overBudget .deployment (budgets.limit .deployment)))

/-- The next statement of a call; `policy` is what the policy read finds of the
fleet, if it finds the fleet at all. -/
def System.next (s : System) (slot : Nat) (call : Call) (policy : Option (Option String)) : Call :=
  match call.phase with
  | .repeated => { call with phase := if s.repeatedOnFleet call then .budget else .policy }
  | .policy =>
      match policy with
      | none => { call with phase := .ended (.error .policy) }
      | some semantics =>
          if s.fleetHeld slot call.admission.fleet then call
          else if semantics = some policySemantics then
            { call with locked := true, phase := .budget }
          else { call with phase := .ended (.error .policy) }
  | .budget =>
      { call with
        phase :=
          if s.exceeded budgets call then
            .ended (.error (.overBudget .fleet (budgets.limit .fleet)))
          else .insert }
  | .insert =>
      if s.insertWaits call then call
      else { call with phase := s.insertAdmission hash budgets call }
  | .commit stored row => { call with phase := .ended (.ok ⟨row.isNone, stored⟩) }
  | .ended _ => call

/-! ## Steps -/

inductive Event where
  /-- A call of `admit` opens its transaction. -/
  | call (rowId : String) (admission : Admission) (estimate : UInt64) (now : Int)
  | run (slot : Nat) (policy : Option (Option String))
  /-- A statement fails, or the call is dropped: its transaction rolls back. -/
  | fail (slot : Nat)
  | settle (id : String)
  /-- A task is bound to an admission, at the generation it stands in. -/
  | bind (id task : String)
  | openTask (id : String) (task : Task)
  | advance (task : String)
  | close (task : String)

def System.run (s : System) (slot : Nat) (policy : Option (Option String)) : System :=
  match s.calls[slot]? with
  | none => s
  | some call =>
      { s with
        rows := s.rows ++ call.pending.toList
        calls := s.calls.set slot (s.next hash budgets slot call policy) }

def System.setTask (s : System) (id : String) (task : Task) : System :=
  { s with tasks := fun other => if other = id then some task else s.tasks other }

def Row.bindTask (row : Row) (id : String) (task : Task) : Row :=
  if row.taskId = none ∧ row.fleet = task.fleet ∧ row.workspace = task.workspace then
    { row with taskId := some id, taskGeneration := some task.generation }
  else row

def System.step (s : System) : Event → System
  | .call rowId admission estimate now =>
      { s with calls := s.calls ++ [⟨rowId, admission, estimate, now, false, .repeated⟩] }
  | .run slot policy => s.run hash budgets slot policy
  | .fail slot =>
      match s.calls[slot]? with
      | none => s
      | some call =>
          match call.phase with
          | .ended _ => s
          | _ => { s with calls := s.calls.set slot { call with phase := .ended (.error .failed) } }
  | .settle id =>
      { s with
        rows := Table.update (fun row => decide (row.id = id))
          (fun row => { row with settled := true })
          s.rows }
  | .bind id task =>
      match s.tasks task with
      | none => s
      | some found =>
          { s with
            rows := Table.update (fun row => decide (row.id = id))
              (fun row => row.bindTask task found) s.rows }
  | .openTask id task =>
      match s.tasks id with
      | none => s.setTask id task
      | some _ => s
  | .advance id =>
      match s.tasks id with
      | none => s
      | some task => s.setTask id { task with generation := task.generation + 1 }
  | .close id =>
      match s.tasks id with
      | none => s
      | some task => s.setTask id { task with terminal := true }

/-! ## What a statement finds -/

theorem exceeded_false {s : System} {call : Call} (within : s.exceeded budgets call = false) :
    call.key ∈ s.keys ∨ s.outstanding call.admission.fleet < budgets.fleetBacklog.toNat := by
  have bounded := budgets.fleetBacklog.toNat_lt
  simp only [System.exceeded, Bool.and_eq_false_iff, decide_eq_false_iff_not, not_not] at within
  rcases within with room | known
  · right
    simp only [clamped, oneMore] at room
    omega
  · exact .inl known

theorem repeated_known {s : System} {call : Call} (found : s.repeatedOnFleet call = true) :
    call.key ∈ s.keys := by
  obtain ⟨row, member, same⟩ := List.any_eq_true.mp found
  simp only [Bool.and_eq_true, decide_eq_true_eq] at same
  exact List.mem_map.mpr ⟨row, member, same.2⟩

structure Pending (s : System) (call : Call) (stored : Repeated) (row : Row) : Prop where
  locked : call.locked = true
  room : s.outstanding call.admission.fleet < budgets.fleetBacklog.toNat
  key : row.key = call.key
  fresh : row.key ∉ s.keys
  fleet : row.fleet = call.admission.fleet
  unbound : row.taskGeneration = none
  answered : row.stored = stored
  id : stored.id = call.rowId
  digest : stored.digest = hash call.admission.payload

def Held (s : System) (call : Call) : Prop :=
  match call.phase with
  | .repeated | .policy => call.locked = false
  | .budget => call.locked = true ∨ call.key ∈ s.keys
  | .insert =>
      call.key ∈ s.keys ∨
        call.locked = true ∧ s.outstanding call.admission.fleet < budgets.fleetBacklog.toNat
  | .commit stored none => ∃ row ∈ s.rows, row.key = call.key ∧ row.stored = stored
  | .commit stored (some row) => Pending hash budgets s call stored row
  | .ended (.ok admitted) =>
      (∃ row ∈ s.rows, row.key = call.key ∧ row.stored = admitted.stored) ∧
        (admitted.replayed = false →
          admitted.stored.id = call.rowId ∧ admitted.stored.digest = hash call.admission.payload)
  | .ended (.error _) => True

structure Sound (s : System) : Prop where
  unique : s.keys.Nodup
  held : ∀ call ∈ s.calls, Held hash budgets s call
  locks : ∀ (i j : Nat) (first second : Call),
    s.calls[i]? = some first → s.calls[j]? = some second →
    first.holds = true → second.holds = true →
      first.admission.fleet = second.admission.fleet → i = j
  single : ∀ (i j : Nat) (first second : Call),
    s.calls[i]? = some first → s.calls[j]? = some second →
    first.inserted = true → second.inserted = true → first.key = second.key → i = j
  made : ∀ key ∈ s.keys, ∃ call ∈ s.calls, call.key = key ∧
    ∃ admitted, call.answer = some admitted ∧ admitted.replayed = false
  bound : ∀ row ∈ s.rows, ∀ generation, row.taskGeneration = some generation →
    ∃ id task, row.taskId = some id ∧ s.tasks id = some task ∧ generation ≤ task.generation
  within : ∀ fleet, s.outstanding fleet ≤ budgets.fleetBacklog.toNat

variable {hash budgets}

theorem answer_eq_some {call : Call} {admitted : Admitted} :
    call.answer = some admitted ↔ call.phase = .ended (.ok admitted) := by
  cases phase : call.phase with
  | ended answer => cases answer <;> simp [Call.answer, phase]
  | repeated | policy | budget | insert => simp [Call.answer, phase]
  | commit stored row => simp [Call.answer, phase]

/-- What a call relies on survives a ledger that keeps every row, gains no row
of its key, and none outstanding on a fleet whose row it holds. -/
theorem held_kept {s next : System} {call : Call}
    (kept : ∀ row ∈ s.rows, ∃ other ∈ next.rows, other.key = row.key ∧ other.stored = row.stored)
    (less : call.holds = true →
      next.outstanding call.admission.fleet ≤ s.outstanding call.admission.fleet)
    (fresh : ∀ row, call.pending = some row → row.key ∉ s.keys → row.key ∉ next.keys)
    (held : Held hash budgets s call) : Held hash budgets next call := by
  have known : call.key ∈ s.keys → call.key ∈ next.keys := by
    intro member
    obtain ⟨row, inside, same⟩ := List.mem_map.mp member
    obtain ⟨other, there, key, _⟩ := kept row inside
    exact List.mem_map.mpr ⟨other, there, key.trans same⟩
  have stored : ∀ answer : Repeated,
      (∃ row ∈ s.rows, row.key = call.key ∧ row.stored = answer) →
        ∃ row ∈ next.rows, row.key = call.key ∧ row.stored = answer := by
    rintro answer ⟨row, inside, key, same⟩
    obtain ⟨other, there, key', same'⟩ := kept row inside
    exact ⟨other, there, key'.trans key, same'.trans same⟩
  unfold Held at held ⊢
  cases phase : call.phase with
  | repeated | policy =>
      rw [phase] at held
      exact held
  | budget =>
      rw [phase] at held
      exact held.imp_right known
  | insert =>
      rw [phase] at held
      rcases held with member | ⟨locked, room⟩
      · exact .inl (known member)
      · have holds : call.holds = true := by simp [Call.holds, locked, phase]
        exact .inr ⟨locked, Nat.lt_of_le_of_lt (less holds) room⟩
  | commit answer row =>
      rw [phase] at held
      cases row with
      | none => exact stored answer held
      | some row =>
          have holds : call.holds = true := by simp [Call.holds, held.locked, phase]
          have pending : call.pending = some row := by simp [Call.pending, phase]
          exact ⟨held.locked, Nat.lt_of_le_of_lt (less holds) held.room, held.key,
            fresh row pending held.fresh, held.fleet, held.unbound, held.answered, held.id,
            held.digest⟩
  | ended answer =>
      rw [phase] at held
      cases answer with
      | error refused => trivial
      | ok admitted => exact ⟨stored _ held.1, held.2⟩

theorem held_calls {s : System} {call : Call} (calls : List Call)
    (held : Held hash budgets s call) : Held hash budgets { s with calls := calls } call :=
  held_kept (s := s) (fun row inside => ⟨row, inside, rfl, rfl⟩) (fun _ => Nat.le_refl _)
    (fun _ _ fresh => fresh) held

/-! ## One call moves -/

theorem sound_set {s : System} {slot : Nat} {call next : Call} (sound : Sound hash budgets s)
    (found : s.calls[slot]? = some call) (unanswered : call.answer = none)
    (held : Held hash budgets s next)
    (lock : next.holds = true → ∀ other second, other ≠ slot → s.calls[other]? = some second →
      second.holds = true → next.admission.fleet ≠ second.admission.fleet)
    (insert : next.inserted = true → ∀ other second, other ≠ slot →
      s.calls[other]? = some second → second.inserted = true → next.key ≠ second.key) :
    Sound hash budgets { s with calls := s.calls.set slot next } := by
  have inside := (List.getElem?_eq_some_iff.mp found).1
  have at_slot : (s.calls.set slot next)[slot]? = some next := List.getElem?_set_self inside
  have elsewhere : ∀ other, other ≠ slot → (s.calls.set slot next)[other]? = s.calls[other]? :=
    fun other apart => List.getElem?_set_ne (Ne.symm apart)
  refine ⟨sound.unique, ?_, ?_, ?_, ?_, sound.bound, sound.within⟩
  · intro other member
    rcases List.mem_or_eq_of_mem_set member with old | rfl
    · exact held_calls _ (sound.held other old)
    · exact held_calls _ held
  · intro i j first second first_at second_at first_holds second_holds same
    by_cases at_i : i = slot
    · by_cases at_j : j = slot
      · exact at_i.trans at_j.symm
      · rw [at_i, at_slot, Option.some.injEq] at first_at
        rw [elsewhere j at_j] at second_at
        subst first_at
        exact absurd same (lock first_holds j second at_j second_at second_holds)
    · rw [elsewhere i at_i] at first_at
      by_cases at_j : j = slot
      · rw [at_j, at_slot, Option.some.injEq] at second_at
        subst second_at
        exact absurd same.symm (lock second_holds i first at_i first_at first_holds)
      · rw [elsewhere j at_j] at second_at
        exact sound.locks i j first second first_at second_at first_holds second_holds same
  · intro i j first second first_at second_at first_in second_in same
    by_cases at_i : i = slot
    · by_cases at_j : j = slot
      · exact at_i.trans at_j.symm
      · rw [at_i, at_slot, Option.some.injEq] at first_at
        rw [elsewhere j at_j] at second_at
        subst first_at
        exact absurd same (insert first_in j second at_j second_at second_in)
    · rw [elsewhere i at_i] at first_at
      by_cases at_j : j = slot
      · rw [at_j, at_slot, Option.some.injEq] at second_at
        subst second_at
        exact absurd same.symm (insert second_in i first at_i first_at first_in)
      · rw [elsewhere j at_j] at second_at
        exact sound.single i j first second first_at second_at first_in second_in same
  · intro key member
    obtain ⟨maker, listed, same, admitted, answer, own⟩ := sound.made key member
    obtain ⟨place, there⟩ := List.mem_iff_getElem?.mp listed
    have apart : place ≠ slot := by
      intro here
      rw [here, found, Option.some.injEq] at there
      rw [there, answer] at unanswered
      exact absurd unanswered (by simp)
    rw [← elsewhere place apart] at there
    exact ⟨maker, List.mem_of_getElem? there, same, admitted, answer, own⟩

/-- The insert: a row of the key is met and answered, or the call's own is
written where no call has one. -/
theorem sound_insert {s : System} {slot : Nat} {call : Call} (sound : Sound hash budgets s)
    (found : s.calls[slot]? = some call) (phase : call.phase = .insert)
    (alone : ¬s.insertWaits call = true) :
    Sound hash budgets
      { s with
        calls := s.calls.set slot { call with phase := s.insertAdmission hash budgets call } } := by
  have held := sound.held call (List.mem_of_getElem? found)
  have unanswered : call.answer = none := by simp [Call.answer, phase]
  rw [Held, phase] at held
  have others : call.locked = true → ∀ other second, other ≠ slot →
      s.calls[other]? = some second → second.holds = true →
        call.admission.fleet ≠ second.admission.fleet := by
    intro locked other second apart there second_holds same
    have holds : call.holds = true := by simp [Call.holds, locked, phase]
    exact apart (sound.locks slot other call second found there holds second_holds same).symm
  have refused : ∀ error, Sound hash budgets
      { s with calls := s.calls.set slot { call with phase := .ended (.error error) } } := by
    intro error
    refine sound_set sound found unanswered trivial ?_ ?_
    · simp [Call.holds]
    · simp [Call.inserted]
  unfold System.insertAdmission
  cases met : s.rows.find? fun row => decide (row.key = call.key) with
  | some row =>
      have inside := List.mem_of_find?_eq_some met
      have same : row.key = call.key := by simpa using List.find?_some met
      refine sound_set sound found unanswered ⟨row, inside, same, rfl⟩ ?_ ?_
      · intro holds
        apply others
        simpa [Call.holds] using holds
      · simp [Call.inserted]
  | none =>
      have unknown : call.key ∉ s.keys := by
        intro member
        obtain ⟨row, inside, same⟩ := List.mem_map.mp member
        exact absurd same (by simpa using List.find?_eq_none.mp met row inside)
      obtain ⟨locked, room⟩ := held.resolve_left unknown
      simp only
      split
      · split
        · exact refused _
        · refine sound_set sound found unanswered ?_ (fun _ => others locked) ?_
          · exact ⟨locked, room, rfl, unknown, rfl, rfl, rfl, rfl, rfl⟩
          · intro _ other second apart there inserted same
            -- Another row of the key is pending, and waited for, or committed.
            have listed := List.mem_of_getElem? there
            have second_held := sound.held second listed
            cases second_phase : second.phase with
            | repeated | policy | budget | insert => simp [Call.inserted, second_phase] at inserted
            | commit stored row =>
                cases row with
                | none => simp [Call.inserted, second_phase] at inserted
                | some row =>
                    rw [Held, second_phase] at second_held
                    apply alone
                    refine List.any_eq_true.mpr ⟨second, listed, ?_⟩
                    have key : row.key = call.key := second_held.key.trans same.symm
                    simp [Call.pending, second_phase, key]
            | ended answer =>
                cases answer with
                | error refused => simp [Call.inserted, second_phase] at inserted
                | ok admitted =>
                    rw [Held, second_phase] at second_held
                    obtain ⟨⟨row, inside, key, _⟩, _⟩ := second_held
                    exact unknown (List.mem_map.mpr ⟨row, inside, key.trans same.symm⟩)
      · exact refused _

theorem sound_next {s : System} {slot : Nat} {call : Call} (policy : Option (Option String))
    (sound : Sound hash budgets s) (found : s.calls[slot]? = some call)
    (uncommitted : ∀ stored row, call.phase ≠ .commit stored row) :
    Sound hash budgets
      { s with calls := s.calls.set slot (s.next hash budgets slot call policy) } := by
  have held := sound.held call (List.mem_of_getElem? found)
  have others : call.holds = true → ∀ other second, other ≠ slot →
      s.calls[other]? = some second → second.holds = true →
        call.admission.fleet ≠ second.admission.fleet := by
    intro holds other second apart there second_holds same
    exact apart (sound.locks slot other call second found there holds second_holds same).symm
  unfold Held at held
  cases phase : call.phase with
  | repeated =>
      rw [phase] at held
      have unanswered : call.answer = none := by simp [Call.answer, phase]
      by_cases known : s.repeatedOnFleet call = true
      · have moved : s.next hash budgets slot call policy = { call with phase := .budget } := by
          simp [System.next, phase, known]
        rw [moved]
        refine sound_set sound found unanswered (.inr (repeated_known known)) ?_ ?_
        · simp [Call.holds, held]
        · simp [Call.inserted]
      · have moved : s.next hash budgets slot call policy = { call with phase := .policy } := by
          simp [System.next, phase, known]
        rw [moved]
        refine sound_set sound found unanswered held ?_ ?_
        · simp [Call.holds, held]
        · simp [Call.inserted]
  | policy =>
      rw [phase] at held
      have unanswered : call.answer = none := by simp [Call.answer, phase]
      have refused : Sound hash budgets
          { s with calls := s.calls.set slot { call with phase := .ended (.error .policy) } } := by
        refine sound_set sound found unanswered trivial ?_ ?_
        · simp [Call.holds]
        · simp [Call.inserted]
      cases policy with
      | none =>
          simp only [System.next, phase]
          exact refused
      | some semantics =>
          simp only [System.next, phase]
          by_cases waits : s.fleetHeld slot call.admission.fleet = true
          · rw [if_pos waits, Table.set_found found]
            exact sound
          · rw [if_neg waits]
            by_cases installed : semantics = some policySemantics
            · rw [if_pos installed]
              refine sound_set sound found unanswered (.inl rfl) ?_ ?_
              · intro _ other second apart there second_holds same
                apply waits
                have inside := (List.getElem?_eq_some_iff.mp there).1
                refine List.any_eq_true.mpr ⟨other, List.mem_range.mpr inside, ?_⟩
                rw [there]
                simp [apart, second_holds, same.symm]
              · simp [Call.inserted]
            · rw [if_neg installed]
              exact refused
  | budget =>
      rw [phase] at held
      have unanswered : call.answer = none := by simp [Call.answer, phase]
      simp only [System.next, phase]
      cases full : s.exceeded budgets call with
      | true =>
          refine sound_set sound found unanswered trivial ?_ ?_
          · simp [Call.holds]
          · simp [Call.inserted]
      | false =>
          refine sound_set sound found unanswered ?_ ?_ ?_
          · rcases exceeded_false budgets full with known | room
            · exact .inl known
            · rcases held with locked | known
              · exact .inr ⟨locked, room⟩
              · exact .inl known
          · intro holds
            apply others
            simpa [Call.holds, phase] using holds
          · simp [Call.inserted]
  | insert =>
      rw [phase] at held
      have unanswered : call.answer = none := by simp [Call.answer, phase]
      simp only [System.next, phase]
      by_cases waits : s.insertWaits call = true
      · rw [if_pos waits, Table.set_found found]
        exact sound
      · rw [if_neg waits]
        exact sound_insert sound found phase waits
  | commit stored row => exact absurd phase (uncommitted stored row)
  | ended answer =>
      have still : s.next hash budgets slot call policy = call := by simp [System.next, phase]
      rw [still, Table.set_found found]
      exact sound

theorem outstanding_append (s : System) (calls : List Call) (row : Row) (fleet : String) :
    ({ s with rows := s.rows ++ [row], calls := calls } : System).outstanding fleet =
      s.outstanding fleet + if row.outstanding s.tasks fleet then 1 else 0 := by
  rw [System.outstanding, List.countP_append, List.countP_singleton]
  rfl

/-- The commit of a row inserted: no other call has its key, and no other call
counts on its fleet's room. -/
theorem sound_commit {s : System} {slot : Nat} {call : Call} {stored : Repeated} {row : Row}
    (sound : Sound hash budgets s) (found : s.calls[slot]? = some call)
    (phase : call.phase = .commit stored (some row)) :
    Sound hash budgets
      { s with
        rows := s.rows ++ [row]
        calls := s.calls.set slot { call with phase := .ended (.ok ⟨false, stored⟩) } } := by
  have pending := sound.held call (List.mem_of_getElem? found)
  rw [Held, phase] at pending
  have inside := (List.getElem?_eq_some_iff.mp found).1
  have holds : call.holds = true := by simp [Call.holds, pending.locked, phase]
  have inserted : call.inserted = true := by simp [Call.inserted, phase]
  have added : row ∈ s.rows ++ [row] := List.mem_append_right _ (List.mem_singleton_self row)
  have at_slot := List.getElem?_set_self (a := { call with phase := .ended (.ok ⟨false, stored⟩) })
    inside
  have elsewhere : ∀ other, other ≠ slot → (s.calls.set slot
      { call with phase := .ended (.ok ⟨false, stored⟩) })[other]? = s.calls[other]? :=
    fun other apart => List.getElem?_set_ne (Ne.symm apart)
  refine ⟨?_, ?_, ?_, ?_, ?_, ?_, ?_⟩
  · rw [System.keys, List.map_append, List.map_singleton]
    exact sound.unique.append (List.nodup_singleton _) (by simpa using pending.fresh)
  · intro other member
    obtain ⟨place, there⟩ := List.mem_iff_getElem?.mp member
    by_cases here : place = slot
    · rw [here, at_slot, Option.some.injEq] at there
      subst there
      exact ⟨⟨row, added, pending.key, pending.answered⟩, fun _ => ⟨pending.id, pending.digest⟩⟩
    · rw [elsewhere place here] at there
      have other_held := sound.held other (List.mem_of_getElem? there)
      refine held_kept (s := s) ?_ ?_ ?_ other_held
      · intro old old_inside
        exact ⟨old, List.mem_append_left _ old_inside, rfl, rfl⟩
      · intro other_holds
        have apart : row.fleet ≠ other.admission.fleet := by
          intro same
          exact here (sound.locks slot place call other found there holds other_holds
            (pending.fleet.symm.trans same)).symm
        rw [outstanding_append]
        simp [Row.outstanding, apart]
      · intro mine other_pending unknown known
        rw [System.keys, List.map_append, List.mem_append, List.map_singleton,
          List.mem_singleton] at known
        rcases known with old | same
        · exact unknown old
        · -- The other call would have inserted a row of the same key.
          have other_phase : ∃ answer, other.phase = .commit answer (some mine) := by
            cases moved : other.phase with
            | commit answer theirs =>
                simp only [Call.pending, moved] at other_pending
                exact ⟨answer, by rw [other_pending]⟩
            | repeated | policy | budget | insert => simp [Call.pending, moved] at other_pending
            | ended answer => simp [Call.pending, moved] at other_pending
          obtain ⟨answer, other_phase⟩ := other_phase
          rw [Held, other_phase] at other_held
          have other_inserted : other.inserted = true := by simp [Call.inserted, other_phase]
          have keys : call.key = other.key :=
            pending.key.symm.trans (same.symm.trans other_held.key)
          exact here (sound.single slot place call other found there inserted other_inserted
            keys).symm
  · intro i j first second first_at second_at first_holds second_holds same
    by_cases at_i : i = slot
    · rw [at_i, at_slot, Option.some.injEq] at first_at
      subst first_at
      simp [Call.holds] at first_holds
    · by_cases at_j : j = slot
      · rw [at_j, at_slot, Option.some.injEq] at second_at
        subst second_at
        simp [Call.holds] at second_holds
      · rw [elsewhere i at_i] at first_at
        rw [elsewhere j at_j] at second_at
        exact sound.locks i j first second first_at second_at first_holds second_holds same
  · intro i j first second first_at second_at first_in second_in same
    by_cases at_i : i = slot
    · by_cases at_j : j = slot
      · exact at_i.trans at_j.symm
      · rw [at_i, at_slot, Option.some.injEq] at first_at
        rw [elsewhere j at_j] at second_at
        subst first_at
        exact at_i.trans
          (sound.single slot j call second found second_at inserted second_in same)
    · by_cases at_j : j = slot
      · rw [at_j, at_slot, Option.some.injEq] at second_at
        rw [elsewhere i at_i] at first_at
        subst second_at
        exact (sound.single i slot first call first_at found first_in inserted same).trans
          at_j.symm
      · rw [elsewhere i at_i] at first_at
        rw [elsewhere j at_j] at second_at
        exact sound.single i j first second first_at second_at first_in second_in same
  · intro key member
    rw [System.keys, List.map_append, List.mem_append, List.map_singleton,
      List.mem_singleton] at member
    rcases member with old | rfl
    · obtain ⟨maker, listed, same, admitted, answer, own⟩ := sound.made key old
      obtain ⟨place, there⟩ := List.mem_iff_getElem?.mp listed
      have apart : place ≠ slot := by
        intro here
        rw [here, found, Option.some.injEq] at there
        rw [← there, Call.answer, phase] at answer
        exact absurd answer (by simp)
      rw [← elsewhere place apart] at there
      exact ⟨maker, List.mem_of_getElem? there, same, admitted, answer, own⟩
    · exact ⟨_, List.mem_of_getElem? at_slot, pending.key.symm, ⟨false, stored⟩, rfl, rfl⟩
  · intro other member generation current
    rcases List.mem_append.mp member with old | new
    · exact sound.bound other old generation current
    · rw [List.mem_singleton.mp new, pending.unbound] at current
      exact absurd current (by simp)
  · intro fleet
    rw [outstanding_append]
    by_cases mine : fleet = call.admission.fleet
    · have room := pending.room
      rw [mine]
      split <;> omega
    · have apart : row.outstanding s.tasks fleet = false := by
        simp [Row.outstanding, pending.fleet, Ne.symm mine]
      rw [apart]
      exact sound.within fleet

/-! ## Other writers -/

theorem sound_world {s next : System} (sound : Sound hash budgets s) (calls : next.calls = s.calls)
    (keys : next.keys = s.keys)
    (kept : ∀ row ∈ s.rows, ∃ other ∈ next.rows, other.key = row.key ∧ other.stored = row.stored)
    (less : ∀ fleet, next.outstanding fleet ≤ s.outstanding fleet)
    (bound : ∀ row ∈ next.rows, ∀ generation, row.taskGeneration = some generation →
      ∃ id task, row.taskId = some id ∧ next.tasks id = some task ∧ generation ≤ task.generation) :
    Sound hash budgets next := by
  refine ⟨?_, ?_, ?_, ?_, ?_, bound, ?_⟩
  · rw [keys]
    exact sound.unique
  · rw [calls]
    intro call member
    refine held_kept kept (fun _ => less _) ?_ (sound.held call member)
    intro row _ fresh
    rw [keys]
    exact fresh
  · rw [calls]
    exact sound.locks
  · rw [calls]
    exact sound.single
  · rw [keys, calls]
    exact sound.made
  · intro fleet
    exact Nat.le_trans (less fleet) (sound.within fleet)

theorem sound_update {s : System} (sound : Sound hash budgets s) (here : Row → Bool)
    {change : Row → Row} (key : ∀ row, (change row).key = row.key)
    (stored : ∀ row, (change row).stored = row.stored)
    (less : ∀ row ∈ s.rows, ∀ fleet, (change row).outstanding s.tasks fleet = true →
      row.outstanding s.tasks fleet = true)
    (bound : ∀ row ∈ s.rows, ∀ generation, (change row).taskGeneration = some generation →
      ∃ id task, (change row).taskId = some id ∧ s.tasks id = some task ∧
        generation ≤ task.generation) :
    Sound hash budgets { s with rows := Table.update here change s.rows } := by
  refine sound_world sound rfl (Table.column_update Row.key here change key s.rows) ?_ ?_ ?_
  · intro row inside
    refine ⟨_, Table.mem_update.mpr ⟨row, inside, rfl⟩, ?_⟩
    split
    · exact ⟨key row, stored row⟩
    · exact ⟨rfl, rfl⟩
  · intro fleet
    exact Table.countP_update_le fun row member => less row member fleet
  · intro row member generation current
    obtain ⟨old, inside, rfl⟩ := Table.mem_update.mp member
    split at current
    · rw [if_pos (by assumption)]
      exact bound old inside generation current
    · rw [if_neg (by assumption)]
      exact sound.bound old inside generation current

theorem sound_setTask {s : System} (sound : Sound hash budgets s) {id : String} {task : Task}
    (stale : ∀ row ∈ s.rows, row.taskId = some id → ∀ generation,
      row.taskGeneration = some generation → task.generation ≠ generation ∨ task.terminal = true)
    (grows : ∀ old, s.tasks id = some old → old.generation ≤ task.generation) :
    Sound hash budgets (s.setTask id task) := by
  refine sound_world sound rfl rfl (fun row inside => ⟨row, inside, rfl, rfl⟩) ?_ ?_
  · intro fleet
    apply List.countP_mono_left
    intro row inside counted
    simp only [Row.outstanding, Bool.and_eq_true, Bool.or_eq_true] at counted ⊢
    refine ⟨counted.1, counted.2.imp_right ?_⟩
    intro current
    cases bound : row.taskId with
    | none => simp [Row.current, bound] at current
    | some other =>
        by_cases same : other = id
        · subst same
          simp only [Row.current, bound, Option.bind_some, System.setTask, if_true,
            Bool.and_eq_true, decide_eq_true_eq, Bool.not_eq_true'] at current
          rcases stale row inside bound task.generation current.1.2.symm with moved | ended
          · exact absurd rfl moved
          · rw [current.2] at ended
            exact absurd ended (by decide)
        · simpa [Row.current, bound, System.setTask, same] using current
  · intro row inside generation current
    obtain ⟨other, old, bound, held, after⟩ := sound.bound row inside generation current
    by_cases same : other = id
    · subst same
      exact ⟨other, task, bound, by simp [System.setTask], Nat.le_trans after (grows old held)⟩
    · exact ⟨other, old, bound, by simpa [System.setTask, same] using held, after⟩

theorem sound_call {s : System} (sound : Sound hash budgets s) (call : Call)
    (phase : call.phase = .repeated) (unlocked : call.locked = false) :
    Sound hash budgets { s with calls := s.calls ++ [call] } := by
  have last : ∀ (place : Nat) (other : Call), (s.calls ++ [call])[place]? = some other →
      s.calls[place]? = some other ∨ other = call := by
    intro place other there
    by_cases before : place < s.calls.length
    · rw [List.getElem?_append_left before] at there
      exact .inl there
    · rw [List.getElem?_append_right (Nat.le_of_not_lt before)] at there
      exact .inr (List.mem_singleton.mp (List.mem_of_getElem? there))
  have idle : call.holds = false := by simp [Call.holds, unlocked]
  have unwritten : call.inserted = false := by simp [Call.inserted, phase]
  refine ⟨sound.unique, ?_, ?_, ?_, ?_, sound.bound, sound.within⟩
  · intro other member
    rcases List.mem_append.mp member with old | new
    · exact held_calls _ (sound.held other old)
    · rw [List.mem_singleton.mp new, Held, phase]
      exact unlocked
  · intro i j first second first_at second_at first_holds second_holds same
    rcases last i first first_at with first_at | rfl
    · rcases last j second second_at with second_at | rfl
      · exact sound.locks i j first second first_at second_at first_holds second_holds same
      · rw [idle] at second_holds
        exact absurd second_holds (by decide)
    · rw [idle] at first_holds
      exact absurd first_holds (by decide)
  · intro i j first second first_at second_at first_in second_in same
    rcases last i first first_at with first_at | rfl
    · rcases last j second second_at with second_at | rfl
      · exact sound.single i j first second first_at second_at first_in second_in same
      · rw [unwritten] at second_in
        exact absurd second_in (by decide)
    · rw [unwritten] at first_in
      exact absurd first_in (by decide)
  · intro key member
    obtain ⟨maker, listed, made⟩ := sound.made key member
    exact ⟨maker, List.mem_append_left _ listed, made⟩

theorem sound_run {s : System} (sound : Sound hash budgets s) (slot : Nat)
    (policy : Option (Option String)) : Sound hash budgets (s.run hash budgets slot policy) := by
  unfold System.run
  cases found : s.calls[slot]? with
  | none => exact sound
  | some call =>
      cases phase : call.phase with
      | commit stored row =>
          have held := sound.held call (List.mem_of_getElem? found)
          rw [Held, phase] at held
          simp only [System.next, Call.pending, phase]
          cases row with
          | none =>
              have unanswered : call.answer = none := by simp [Call.answer, phase]
              simp only [Option.toList_none, List.append_nil, Option.isNone_none]
              refine sound_set sound found unanswered ⟨held, by simp⟩ ?_ ?_
              · simp [Call.holds]
              · simp [Call.inserted]
          | some row => exact sound_commit sound found phase
      | repeated | policy | budget | insert =>
          have pending : call.pending = none := by simp [Call.pending, phase]
          simp only [pending, Option.toList_none, List.append_nil]
          exact sound_next policy sound found (by simp [phase])
      | ended answer =>
          have pending : call.pending = none := by simp [Call.pending, phase]
          simp only [pending, Option.toList_none, List.append_nil]
          exact sound_next policy sound found (by simp [phase])

theorem sound_step {s : System} (event : Event) (sound : Sound hash budgets s) :
    Sound hash budgets (s.step hash budgets event) := by
  cases event with
  | call rowId admission estimate now => exact sound_call sound _ rfl rfl
  | run slot policy => exact sound_run sound slot policy
  | fail slot =>
      simp only [System.step]
      cases found : s.calls[slot]? with
      | none => exact sound
      | some call =>
          have dropped : call.answer = none → Sound hash budgets
              { s with
                calls := s.calls.set slot { call with phase := .ended (.error .failed) } } := by
            intro unanswered
            refine sound_set sound found unanswered trivial ?_ ?_
            · simp [Call.holds]
            · simp [Call.inserted]
          cases phase : call.phase with
          | ended answer =>
              simp only [phase]
              exact sound
          | repeated | policy | budget | insert =>
              simp only [phase]
              exact dropped (by simp [Call.answer, phase])
          | commit stored row =>
              simp only [phase]
              exact dropped (by simp [Call.answer, phase])
  | settle id =>
      refine sound_update sound _ (fun _ => rfl) (fun _ => rfl) ?_ ?_
      · intro row _ fleet counted
        simp [Row.outstanding] at counted
      · exact sound.bound
  | bind id task =>
      simp only [System.step]
      cases held : s.tasks task with
      | none => exact sound
      | some found =>
          have unbound : ∀ row ∈ s.rows, row.taskId = none → row.taskGeneration = none := by
            intro row member free
            cases current : row.taskGeneration with
            | none => rfl
            | some generation =>
                obtain ⟨id, _, bound, _⟩ := sound.bound row member generation current
                rw [free] at bound
                exact absurd bound (by simp)
          refine sound_update sound _ ?_ ?_ ?_ ?_
          · intro row
            unfold Row.bindTask
            split <;> rfl
          · intro row
            unfold Row.bindTask
            split <;> rfl
          · intro row member fleet counted
            unfold Row.bindTask at counted
            split at counted
            · rename_i free
              simp only [Row.outstanding, Bool.and_eq_true] at counted ⊢
              refine ⟨counted.1, ?_⟩
              simp [unbound row member free.1]
            · exact counted
          · intro row member generation current
            unfold Row.bindTask at current ⊢
            split
            · rename_i free
              rw [if_pos free, Option.some.injEq] at current
              exact ⟨task, found, rfl, held, Nat.le_of_eq current.symm⟩
            · rename_i taken
              rw [if_neg taken] at current
              exact sound.bound row member generation current
  | openTask id task =>
      simp only [System.step]
      cases held : s.tasks id with
      | none =>
          refine sound_setTask sound ?_ (by simp [held])
          intro row member bound generation current
          obtain ⟨other, found, same, there, _⟩ := sound.bound row member generation current
          rw [bound, Option.some.injEq] at same
          rw [← same, held] at there
          exact absurd there (by simp)
      | some _ => exact sound
  | advance id =>
      simp only [System.step]
      cases held : s.tasks id with
      | none => exact sound
      | some task =>
          refine sound_setTask sound ?_ ?_
          · intro row member bound generation current
            obtain ⟨other, found, same, there, within⟩ := sound.bound row member generation current
            rw [bound, Option.some.injEq] at same
            rw [← same, held, Option.some.injEq] at there
            subst there
            left
            show task.generation + 1 ≠ generation
            omega
          · intro old there
            rw [held, Option.some.injEq] at there
            subst there
            exact Nat.le_succ _
  | close id =>
      simp only [System.step]
      cases held : s.tasks id with
      | none => exact sound
      | some task =>
          refine sound_setTask sound (fun _ _ _ _ _ => .inr rfl) ?_
          intro old there
          rw [held, Option.some.injEq] at there
          subst there
          exact Nat.le_refl _

theorem sound_new (hash : List String → String) (budgets : Budgets) :
    Sound hash budgets System.start := by
  refine ⟨List.nodup_nil, ?_, ?_, ?_, ?_, ?_, ?_⟩
  all_goals simp [System.start, System.keys, System.outstanding]

theorem next_admitted {s : System} {slot : Nat} {call : Call} {policy : Option (Option String)}
    (running : ∀ answer, call.phase ≠ .ended answer) (known : call.key ∈ s.keys)
    (scope : BudgetScope) (limit : UInt64) :
    (s.next hash budgets slot call policy).phase ≠ .ended (.error (.overBudget scope limit)) := by
  unfold System.next
  cases phase : call.phase with
  | repeated => by_cases known : s.repeatedOnFleet call = true <;> simp [known]
  | policy =>
      cases policy with
      | none => simp
      | some semantics =>
          simp only
          split
          · simp [phase]
          · split <;> simp
  | budget => simp [System.exceeded, known]
  | insert =>
      simp only
      split
      · simp [phase]
      · obtain ⟨row, inside, same⟩ := List.mem_map.mp known
        unfold System.insertAdmission
        cases met : s.rows.find? fun row => decide (row.key = call.key) with
        | some row => simp
        | none =>
            exact absurd same (by simpa using List.find?_eq_none.mp met row inside)
  | commit stored row => simp
  | ended answer => exact absurd phase (running answer)

structure LedgerKept (hash : List String → String) (budgets : Budgets) (s : System) : Prop where
  unique : (s.rows.map Row.key).Nodup
  answered : ∀ call ∈ s.calls, ∀ admitted, call.answer = some admitted →
    ∃ row ∈ s.rows, row.key = call.key ∧ row.stored = admitted.stored
  first : ∀ call ∈ s.calls, ∀ admitted, call.answer = some admitted →
    ∃ (slot : Nat) (maker : Call), s.calls[slot]? = some maker ∧ maker.key = call.key ∧
      maker.answer = some ⟨false, admitted.stored⟩ ∧ admitted.stored.id = maker.rowId ∧
        admitted.stored.digest = hash maker.admission.payload ∧
          ∀ (place : Nat) (other : Call) (answer : Admitted), s.calls[place]? = some other →
            other.key = call.key → other.answer = some answer → answer.replayed = false →
              place = slot
  repeats : ∀ slot policy, ∀ call ∈ s.calls, (∀ answer, call.phase ≠ .ended answer) →
    call.key ∈ s.rows.map Row.key → ∀ scope limit,
      (s.next hash budgets slot call policy).phase ≠ .ended (.error (.overBudget scope limit))
  bounded : ∀ fleet, s.outstanding fleet ≤ budgets.fleetBacklog.toNat

theorem inserted_of_answer {call : Call} {admitted : Admitted}
    (answer : call.answer = some admitted) (own : admitted.replayed = false) :
    call.inserted = true := by
  rw [answer_eq_some] at answer
  simp [Call.inserted, answer, own]

theorem ledger_kept {s : System} (sound : Sound hash budgets s) : LedgerKept hash budgets s := by
  have answered : ∀ call ∈ s.calls, ∀ admitted, call.answer = some admitted →
      (∃ row ∈ s.rows, row.key = call.key ∧ row.stored = admitted.stored) ∧
        (admitted.replayed = false → admitted.stored.id = call.rowId ∧
          admitted.stored.digest = hash call.admission.payload) := by
    intro call member admitted answer
    have held := sound.held call member
    rw [Held, answer_eq_some.mp answer] at held
    exact held
  refine ⟨sound.unique, fun call member admitted answer =>
    (answered call member admitted answer).1, ?_, ?_, sound.within⟩
  · intro call member admitted answer
    obtain ⟨row, inside, key, stored⟩ := (answered call member admitted answer).1
    obtain ⟨maker, listed, same, made, maker_answer, own⟩ :=
      sound.made row.key (List.mem_map.mpr ⟨row, inside, rfl⟩)
    obtain ⟨slot, there⟩ := List.mem_iff_getElem?.mp listed
    obtain ⟨⟨first, first_inside, first_key, first_stored⟩, identity⟩ :=
      answered maker listed made maker_answer
    -- One row holds the key, so both answers are of it.
    have one : first = row :=
      List.inj_on_of_nodup_map sound.unique first_inside inside (first_key.trans same)
    have both : made.stored = admitted.stored := by
      rw [← first_stored, one, stored]
    obtain ⟨id, digest⟩ := identity own
    refine ⟨slot, maker, there, same.trans key, ?_, both ▸ id, both ▸ digest, ?_⟩
    · rw [maker_answer, ← both, ← own]
    · intro place other answer other_at other_key other_answer other_own
      exact sound.single place slot other maker other_at there
        (inserted_of_answer other_answer other_own) (inserted_of_answer maker_answer own)
        (other_key.trans (same.trans key).symm)
  · intro slot policy call _ running known scope limit
    exact next_admitted running known scope limit

/-- However the statements of any number of calls interleave, among settles and
task transitions, a key has one row, one call made it, and no fleet holds more
than its budget. -/
theorem admissions_kept (hash : List String → String) (budgets : Budgets) (events : List Event) :
    LedgerKept hash budgets (Run.final (System.step hash budgets) .start events) := by
  have keeps : ∀ s event, Sound hash budgets s → Sound hash budgets (s.step hash budgets event) :=
    fun _ event held => sound_step event held
  exact ledger_kept (Run.invariant_of_step (Sound hash budgets) keeps (sound_new hash budgets)
    events _ (Run.final_mem_states _ _ _))

end Statements

end Agentsfleet.Admissions
